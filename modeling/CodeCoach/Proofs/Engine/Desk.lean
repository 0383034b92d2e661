import CodeCoach.Proofs.Engine.Dropped
import Mathlib.Data.List.Perm.Subperm

/-!
# Actions and resets that wait

An action marks its intervention at once. It is told of and answered when its feedback has been
kept, and until then the engine does other things. A reset waits, too, between its parts.

* `Errand`, what is left of an action or of a reset that waits, and `Errand.goOn`, its next part;
* `Desk`, an engine with such errands, `Part`, `Desk.after`, `Desk.run`;
* `Change`, what parts may do to the interventions of an engine;
* `Desk.Effect`, what a part tells and does, and `effect`.
-/

namespace CodeCoach.Engine

/-- What is left of an action or of a reset that waits. -/
inductive Errand
  /-- The intervention is marked; the feedback of that time is to be kept. -/
  | keep (i : Intervention) (action : Action) (note : Option String) (time : Instant)
  /-- The feedback is kept, or could not be; the action is to be told of and answered. -/
  | answer (id : String) (action : Action) (result : Except StorageError Unit)
  /-- No document waits any longer; the interventions are to be removed. -/
  | clear
  /-- The interventions are removed; what has been learned is to be forgotten. -/
  | forget
  /-- All is forgotten; it is to be told if the storage could not. -/
  | report (result : Except StorageError Unit)

namespace Errand

/-- Does the next part of an errand. Gives what is left of it. -/
def goOn (e : Engine) : Errand → Engine × Option Errand
  | keep i action note time =>
    let (result, store) := e.store.record (i.feedback action note time)
    ({ e with store := store }, some (answer i.id action result))
  | answer id action result =>
    (e.publish
      (savingEvents "feedback could not be saved and will be lost on restart: " result ++
        [.resolved id action]),
      none)
  | clear => ({ e with interventions := [] }, some forget)
  | forget =>
    let (result, store) := e.store.reset
    ({ e with store := store }, some (report result))
  | report result =>
    (e.publish (savingEvents "feedback reset could not be saved: " result), none)

/-- The action that waits to be answered, with the identifier of its intervention. -/
def act? : Errand → Option (String × Action)
  | keep i action _ _ => some (i.id, action)
  | answer id action _ => some (id, action)
  | clear => none
  | forget => none
  | report _ => none

/-- The action that the next part of an errand answers. -/
def answered? : Errand → Option (String × Action)
  | answer id action _ => some (id, action)
  | _ => none

/-- Whether the next part of an errand removes the interventions. -/
def clears : Errand → Bool
  | clear => true
  | _ => false

end Errand

/-- An engine, and the actions and resets that wait. -/
structure Desk where
  engine : Engine
  errands : List Errand

/-- What happens between two points at which somebody waits. -/
inductive Part
  /-- A move of the engine. Actions and resets are moves, too, if nothing comes between their
  parts. -/
  | move (m : Move)
  /-- An action comes in. If there is an unresolved intervention, it is marked. -/
  | act (id : String) (action : Action) (note : Option String)
  | reset
  /-- An errand goes on, by its place. -/
  | goOn (n : Nat)
  /-- Nobody waits for an errand any longer, and the rest of it is not done. -/
  | drop (n : Nat)

namespace Desk

/-- The desk after a part. -/
def after (k : Desk) : Part → Desk
  | .move m => { k with engine := k.engine.after m }
  | .act id action note =>
    match markFirst id action k.engine.interventions with
    | none => k
    | some (i, interventions) =>
      ⟨{ k.engine with interventions := interventions },
        k.errands ++ [.keep i action note k.engine.clock]⟩
  | .reset =>
    ⟨{ k.engine with timers := k.engine.timers.cancelAll }, k.errands ++ [.clear]⟩
  | .goOn n =>
    match k.errands[n]? with
    | none => k
    | some errand =>
      let (engine, left) := errand.goOn k.engine
      ⟨engine, k.errands.take n ++ left.toList ++ k.errands.drop (n + 1)⟩
  | .drop n => { k with errands := k.errands.eraseIdx n }

/-- The desk after parts. -/
def run (k : Desk) (parts : List Part) : Desk := parts.foldl after k

@[simp] theorem run_nil (k : Desk) : k.run [] = k := rfl

@[simp] theorem run_cons (k : Desk) (p : Part) (parts : List Part) :
    k.run (p :: parts) = (k.after p).run parts := rfl

theorem run_append (k : Desk) (parts more : List Part) :
    k.run (parts ++ more) = (k.run parts).run more := List.foldl_append

theorem run_concat (k : Desk) (parts : List Part) (p : Part) :
    k.run (parts ++ [p]) = (k.run parts).after p := run_append k parts [p]

end Desk

/-! ### Interventions -/

/-- What may become of the interventions, with those that are created and the actions that are
taken in. -/
inductive Change (e e' : Engine) (created : List Intervention) (marked : List (String × Action))
    (clears : Bool) : Prop
  | delivered (hclears : clears = false) (hmarked : marked = [])
      (hopen : ∀ i ∈ created, i.dismissed = none ∧ i.accepted = none)
      (hids : created.map Intervention.id =
        (List.range created.length).map fun k => e.ids (e.issued + k))
      (hlist : e'.interventions = e.interventions ++ created)
  | acted (before : List Intervention) (i : Intervention) (rest : List Intervention)
      (action : Action) (hclears : clears = false) (hcreated : created = [])
      (hmarked : marked = [(i.id, action)]) (hold : e.interventions = before ++ i :: rest)
      (hi : i.isResolved = false) (hlist : e'.interventions = before ++ i.mark action :: rest)
  | cleared (hclears : clears = true) (hcreated : created = []) (hmarked : marked = [])
      (hlist : e'.interventions = [])

theorem change_of_eq {e e' : Engine} (h : e'.interventions = e.interventions) :
    Change e e' [] [] false :=
  .delivered rfl rfl (by simp) rfl (by rw [h, List.append_nil])

theorem change_of_markFirst {e e' : Engine} {id : String} {action : Action} {i : Intervention}
    (h : markFirst id action e.interventions = some (i, e'.interventions)) :
    Change e e' [] [(id, action)] false := by
  obtain ⟨before, j, rest, hold, -, rfl, hopen, -, hlist⟩ := markFirst_eq_some h
  exact .acted before j rest action rfl rfl rfl hold hopen hlist

/-- Whether a move removes the interventions. -/
def Move.clears : Move → Bool
  | .reset => true
  | _ => false

theorem change_goOn (e : Engine) (path : String) (a : Answer) :
    Change e (e.goOn path a) (e.delivered (.goOn path a)) [] false ∧
      (e.goOn path a).issued = e.issued + (e.delivered (.goOn path a)).length := by
  cases hf : e.flight? path with
  | none =>
    have hnone : e.delivered (.goOn path a) = [] := by simp [delivered, settle, hf]
    have hgoOn : e.goOn path a = e := by simp [goOn, step?, hf]
    rw [hnone, hgoOn]
    exact ⟨change_of_eq rfl, rfl⟩
  | some f =>
    by_cases hn : f.next = .deliver
    · have hlist : e.delivered (.goOn path a) = f.interventions e.ids e.issued e.clock := by
        simp [delivered, settle, hf, hn, deliver]
      have hgoOn : e.goOn path a = (e.deliver f).2 := by simp [goOn, step?, settle, hf, hn]
      rw [hlist, hgoOn]
      exact ⟨.delivered rfl rfl (fun i => open_of_mem_interventions)
        (map_id_interventions f e.ids e.issued e.clock) rfl, rfl⟩
    · have hnone : e.delivered (.goOn path a) = [] := by simp [delivered, settle, hf, hn]
      have hspares := (spares_goOn hf hn a).1.eq
      rw [hnone]
      exact ⟨change_of_eq (by rw [hspares]), by rw [hspares]; rfl⟩

theorem change_after (e : Engine) (m : Move) :
    Change e (e.after m) (e.delivered m) (e.resolved m) m.clears ∧
      (e.after m).issued = e.issued + (e.delivered m).length := by
  cases m with
  | start d trigger now =>
    obtain ⟨cooldown, flights, h⟩ := e.start_eq d trigger now
    exact ⟨change_of_eq (by rw [after, h]), by rw [after, h]; rfl⟩
  | goOn path a => exact e.change_goOn path a
  | act id action note =>
    cases hm : markFirst id action e.interventions with
    | none =>
      have hact : e.act id action note = (false, e) := by rw [act, hm]
      simp only [after, delivered, resolved, hact]
      exact ⟨change_of_eq rfl, rfl⟩
    | some marked =>
      obtain ⟨i, list⟩ := marked
      have hlist : (e.act id action note).2.interventions = list ∧
          (e.act id action note).2.issued = e.issued ∧ (e.act id action note).1 = true := by
        simp [act, hm, publish]
      simp only [after, delivered, resolved, hlist.2.2, if_true]
      exact ⟨change_of_markFirst (by rw [hlist.1]; exact hm), hlist.2.1⟩
  | reset => exact ⟨.cleared rfl rfl rfl rfl, rfl⟩
  | schedule d trigger =>
    simp only [after, schedule]
    split <;> exact ⟨change_of_eq rfl, rfl⟩
  | _ => exact ⟨change_of_eq rfl, rfl⟩

/-! ### Parts -/

namespace Desk

/-- The events that a part adds to those before. -/
def told (k : Desk) (p : Part) : List Event :=
  (k.after p).engine.events.drop k.engine.events.length

/-- The interventions that a part delivers, as the outcome of a cycle. -/
def delivered? (k : Desk) : Part → Option (List Intervention)
  | .move (.goOn path _) => (k.engine.settle path).1
  | _ => none

/-- The action that a part takes in by marking an intervention, with its identifier. -/
def marked (k : Desk) : Part → List (String × Action)
  | .move m => k.engine.resolved m
  | .act id action _ =>
    if (markFirst id action k.engine.interventions).isSome then [(id, action)] else []
  | _ => []

/-- Whether a part removes the interventions. -/
def clears (k : Desk) : Part → Bool
  | .move m => m.clears
  | .goOn n => k.errands[n]?.any Errand.clears
  | _ => false

/-- The action that a part answers, and the answer: whether there was an unresolved intervention
with the identifier. -/
def reply? (k : Desk) : Part → Option ((String × Action) × Bool)
  | .move (.act id action note) => some ((id, action), (k.engine.act id action note).1)
  | .act id action _ =>
    if (markFirst id action k.engine.interventions).isSome then none else some ((id, action), false)
  | .goOn n => (k.errands[n]?.bind Errand.answered?).map fun act => (act, true)
  | _ => none

/-- The actions that wait to be answered. -/
def waiting (k : Desk) : List (String × Action) := k.errands.filterMap Errand.act?

/-- The action that a part answers with true. -/
def granted (k : Desk) (p : Part) : List (String × Action) :=
  ((k.reply? p).filter Prod.snd).toList.map Prod.fst

/-- What a part tells and does. -/
structure Effect (k : Desk) (p : Part) (told : List Event) : Prop where
  events : (k.after p).engine.events = k.engine.events ++ told
  ids : (k.after p).engine.ids = k.engine.ids
  issued : (k.after p).engine.issued =
    k.engine.issued + (told.filterMap Event.created?).length
  change : Change k.engine (k.after p).engine (told.filterMap Event.created?) (k.marked p)
    (k.clears p)
  created : told.filterMap Event.created? = (k.delivered? p).getD []
  resolved : told.filterMap Event.resolved? = k.granted p
  /-- What is answered or waits has waited or is taken in. -/
  waiting : (k.granted p ++ (k.after p).waiting).Subperm (k.waiting ++ k.marked p)

theorem effect_move (k : Desk) (m : Move) : Effect k (.move m) (k.engine.told m) := by
  have hgranted : k.granted (.move m) = k.engine.resolved m := by
    cases m with
    | act id action note =>
      cases h : (k.engine.act id action note).1 <;> simp [granted, reply?, resolved, h]
    | _ => rfl
  obtain ⟨hchange, hissued⟩ := k.engine.change_after m
  constructor
  case events => exact k.engine.events_after m
  case ids => exact k.engine.ids_after m
  case issued => rw [created_told]; exact hissued
  case change => rw [created_told]; exact hchange
  case created =>
    rw [created_told]
    cases m <;> rfl
  case resolved => rw [resolved_told, hgranted]
  case waiting =>
    rw [hgranted]
    exact List.perm_append_comm.subperm

/-- A part that tells and marks nothing and touches but the timers of the engine. -/
theorem effect_of_quiet {k : Desk} {p : Part} {timers : Debouncer Awaiting}
    (hengine : (k.after p).engine = { k.engine with timers := timers })
    (hwaiting : (k.after p).waiting.Subperm k.waiting) (hmarked : k.marked p = [])
    (hclears : k.clears p = false) (hdelivered : k.delivered? p = none)
    (hgranted : k.granted p = []) : Effect k p [] := by
  constructor
  case events => rw [hengine, List.append_nil]
  case ids => rw [hengine]
  case issued => rw [hengine]; rfl
  case change => rw [hengine, hmarked, hclears]; exact change_of_eq rfl
  case created => rw [hdelivered]; rfl
  case resolved => rw [hgranted]; rfl
  case waiting => rw [hgranted, hmarked, List.append_nil]; exact hwaiting

theorem effect_act (k : Desk) (id : String) (action : Action) (note : Option String) :
    Effect k (.act id action note) [] := by
  cases hm : markFirst id action k.engine.interventions with
  | none =>
    have hafter : k.after (.act id action note) = k := by simp [after, hm]
    refine effect_of_quiet (by rw [hafter]) (by rw [hafter]) ?_ rfl rfl ?_
    · simp [marked, hm]
    · simp only [granted, reply?, hm]
      rfl
  | some found =>
    obtain ⟨i, interventions⟩ := found
    obtain ⟨before, j, rest, -, -, hid, -, rfl, -⟩ := markFirst_eq_some hm
    have hafter : k.after (.act id action note) =
        ⟨{ k.engine with interventions := interventions },
          k.errands ++ [.keep (j.mark action) action note k.engine.clock]⟩ := by
      simp [after, hm]
    have hmarked : k.marked (.act id action note) = [(id, action)] := by simp [marked, hm]
    have hgranted : k.granted (.act id action note) = [] := by simp [granted, reply?, hm]
    constructor
    case events => rw [hafter, List.append_nil]
    case ids => rw [hafter]
    case issued => rw [hafter]; rfl
    case change => rw [hafter, hmarked]; exact change_of_markFirst hm
    case created => rfl
    case resolved => rw [hgranted]; rfl
    case waiting =>
      have hwaiting : (k.after (.act id action note)).waiting = k.waiting ++ [(id, action)] := by
        rw [hafter]
        simp [waiting, Errand.act?, hid]
      rw [hgranted, hmarked, hwaiting]
      rfl

/-- A part of an errand tells of the action that it answers. -/
theorem exists_told_goOn (e : Engine) (errand : Errand) :
    ∃ told, (errand.goOn e).1.events = e.events ++ told ∧
      told.filterMap Event.created? = [] ∧
      told.filterMap Event.resolved? = errand.answered?.toList ∧
      errand.answered?.toList ++ ((errand.goOn e).2.bind Errand.act?).toList =
        errand.act?.toList := by
  cases errand with
  | keep i action note time => exact ⟨[], (List.append_nil _).symm, rfl, rfl, rfl⟩
  | answer id action result =>
    exact ⟨_, rfl, by simp [Event.created?], by simp [Errand.answered?, Event.resolved?], rfl⟩
  | clear => exact ⟨[], (List.append_nil _).symm, rfl, rfl, rfl⟩
  | forget => exact ⟨[], (List.append_nil _).symm, rfl, rfl, rfl⟩
  | report result => exact ⟨_, rfl, by simp, by simp [Errand.answered?], rfl⟩

/-- An errand that goes on removes the interventions or leaves them as they are. -/
theorem change_errand (e : Engine) (errand : Errand) :
    Change e (errand.goOn e).1 [] [] errand.clears := by
  cases errand with
  | clear => exact .cleared rfl rfl rfl rfl
  | _ => exact change_of_eq rfl

theorem effect_goOn (k : Desk) (n : Nat) : ∃ told, Effect k (.goOn n) told := by
  cases hn : k.errands[n]? with
  | none =>
    have hafter : k.after (.goOn n) = k := by simp [after, hn]
    refine ⟨[], effect_of_quiet (by rw [hafter]) (by rw [hafter]) rfl ?_ rfl ?_⟩
    · simp [clears, hn]
    · simp [granted, reply?, hn]
  | some errand =>
    obtain ⟨hlt, hget⟩ := List.getElem?_eq_some_iff.1 hn
    have hsplit : k.errands = k.errands.take n ++ errand :: k.errands.drop (n + 1) := by
      rw [← hget, ← List.drop_eq_getElem_cons hlt, List.take_append_drop]
    have hafter : k.after (.goOn n) = ⟨(errand.goOn k.engine).1,
        k.errands.take n ++ (errand.goOn k.engine).2.toList ++ k.errands.drop (n + 1)⟩ := by
      simp [after, hn]
    have hgranted : k.granted (.goOn n) = errand.answered?.toList := by
      simp only [granted, reply?, hn, Option.bind_some]
      cases errand.answered? <;> rfl
    have hclears : k.clears (.goOn n) = errand.clears := by simp [clears, hn]
    obtain ⟨told, hevents, hcreated, hresolved, hact⟩ := exists_told_goOn k.engine errand
    refine ⟨told, ?_⟩
    constructor
    case events => rw [hafter, hevents]
    case ids => rw [hafter]; cases errand <;> rfl
    case issued => rw [hafter, hcreated]; cases errand <;> rfl
    case change =>
      rw [hafter, hcreated, hclears]
      exact change_errand k.engine errand
    case created => rw [hcreated]; rfl
    case resolved => rw [hresolved, hgranted]
    case waiting =>
      -- The action that is answered waited in its place among the others.
      have hleft : (errand.goOn k.engine).2.toList.filterMap Errand.act? =
          ((errand.goOn k.engine).2.bind Errand.act?).toList := by
        cases (errand.goOn k.engine).2 with
        | none => rfl
        | some left => cases h : left.act? <;> simp [h]
      have hold : k.waiting = (k.errands.take n).filterMap Errand.act? ++
          (errand.act?.toList ++ (k.errands.drop (n + 1)).filterMap Errand.act?) := by
        conv_lhs => rw [waiting, hsplit]
        rw [List.filterMap_append, List.filterMap_cons]
        cases errand.act? <;> rfl
      have hnew : (k.after (.goOn n)).waiting = (k.errands.take n).filterMap Errand.act? ++
          (((errand.goOn k.engine).2.bind Errand.act?).toList ++
            (k.errands.drop (n + 1)).filterMap Errand.act?) := by
        rw [hafter, waiting, List.filterMap_append, List.filterMap_append, hleft, List.append_assoc]
      rw [hgranted, hold, hnew, show k.marked (.goOn n) = [] from rfl, List.append_nil, ← hact]
      rw [List.append_assoc errand.answered?.toList]
      exact (List.perm_append_comm_assoc _ _ _).subperm

theorem effect (k : Desk) (p : Part) : Effect k p (k.told p) := by
  have h : ∃ told, Effect k p told := by
    cases p with
    | move m => exact ⟨_, k.effect_move m⟩
    | act id action note => exact ⟨_, k.effect_act id action note⟩
    | reset =>
      have hwaiting : (k.after .reset).waiting = k.waiting := by simp [waiting, after, Errand.act?]
      exact ⟨_, effect_of_quiet rfl (by rw [hwaiting]) rfl rfl rfl rfl⟩
    | goOn n => exact k.effect_goOn n
    | drop n =>
      have hwaiting : (k.after (.drop n)).waiting.Subperm k.waiting :=
        ((List.eraseIdx_sublist _ n).filterMap _).subperm
      exact ⟨_, effect_of_quiet rfl hwaiting rfl rfl rfl rfl⟩
  obtain ⟨told, h⟩ := h
  rwa [Desk.told, h.events, List.drop_left]

end Desk

end CodeCoach.Engine
