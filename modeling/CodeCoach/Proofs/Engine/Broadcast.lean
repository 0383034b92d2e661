import CodeCoach.Proofs.Engine.Desk
import Mathlib.Data.List.DropRight
import Mathlib.Data.List.Nodup

/-!
# What is told is what there is

Those who listen know the interventions from the events alone. Cycles, actions and resets are taken
apart here, and their parts come in any order.

* `Intervention.afterActs`, an intervention after the actions that were taken in;
* `Desk.trace`, `Desk.toldSinceReset`, `Desk.taken`, what a run tells and takes in;
* `Desk.Agrees`, the invariant, and `agrees_run`, which carries it through a run;
* `Desk.Heralded`, for events in which every action comes after the creation of its intervention;
* `interventions_as_told`, what holds in all runs.
-/

namespace CodeCoach

namespace Intervention

/-- The intervention as it was before any action. -/
def asCreated (i : Intervention) : Intervention := { i with dismissed := none, accepted := none }

/-- The intervention after the first of the actions that names it, if one does. -/
def afterActs (acts : List (String × Action)) (i : Intervention) : Intervention :=
  (acts.lookup i.id).elim i i.mark

@[simp] theorem id_afterActs (acts : List (String × Action)) (i : Intervention) :
    (i.afterActs acts).id = i.id := by
  unfold afterActs
  cases acts.lookup i.id with
  | none => rfl
  | some action => exact id_mark i action

theorem afterActs_of_lookup_eq_none {acts : List (String × Action)} {i : Intervention}
    (h : acts.lookup i.id = none) : i.afterActs acts = i := by
  rw [afterActs, h, Option.elim_none]

theorem asCreated_afterActs {i : Intervention} (h : i.dismissed = none ∧ i.accepted = none)
    (acts : List (String × Action)) : (i.afterActs acts).asCreated = i := by
  obtain ⟨id, context, response, createdAt, dismissed, accepted⟩ := i
  obtain ⟨rfl, rfl⟩ := h
  unfold afterActs
  cases acts.lookup id with
  | none => rfl
  | some action => cases action <;> rfl

theorem isActive_afterActs {i : Intervention} (h : i.dismissed = none ∧ i.accepted = none)
    (acts : List (String × Action)) :
    (i.afterActs acts).isActive = decide (acts.lookup i.id ≠ some .dismissed) := by
  unfold afterActs
  cases acts.lookup i.id with
  | none => simp [isActive, h.1]
  | some action => cases action <;> simp [isActive, mark, h.1]

/-- An action on another intervention makes no difference. -/
theorem afterActs_concat_of_ne {acts : List (String × Action)} {i : Intervention} {id : String}
    (h : i.id ≠ id) (action : Action) :
    i.afterActs (acts ++ [(id, action)]) = i.afterActs acts := by
  have hlookup : (acts ++ [(id, action)]).lookup i.id = acts.lookup i.id := by
    simp [List.lookup_append, List.lookup_cons, beq_false_of_ne h]
  rw [afterActs, afterActs, hlookup]

/-- An intervention that is still unresolved was not named by any action. -/
theorem lookup_eq_none_of_unresolved {acts : List (String × Action)} {i : Intervention}
    (h : (i.afterActs acts).isResolved = false) : acts.lookup i.id = none := by
  cases hlookup : acts.lookup i.id with
  | none => rfl
  | some action =>
    rw [afterActs, hlookup, Option.elim_some, isResolved_mark] at h
    cases h

theorem afterActs_concat_self {acts : List (String × Action)} {i : Intervention}
    (h : acts.lookup i.id = none) (action : Action) :
    i.afterActs (acts ++ [(i.id, action)]) = i.mark action := by
  have hlookup : (acts ++ [(i.id, action)]).lookup i.id = some action := by
    simp [List.lookup_append, h]
  rw [afterActs, hlookup, Option.elim_some]

end Intervention

namespace Engine

namespace Desk

/-! ### What a run tells -/

/-- What each part does: whether it removes the interventions, and what it tells. -/
def trace (k : Desk) : List Part → List (Bool × List Event)
  | [] => []
  | p :: parts => (k.clears p, k.told p) :: (k.after p).trace parts

theorem trace_append (k : Desk) (parts more : List Part) :
    k.trace (parts ++ more) = k.trace parts ++ (k.run parts).trace more := by
  induction parts generalizing k with
  | nil => rfl
  | cons p parts ih => simp [trace, ih]

/-- The interventions are not removed in the course of the parts. -/
def Keeps (k : Desk) (parts : List Part) : Prop := ∀ done ∈ k.trace parts, done.1 = false

/-- The events of the parts after the last one that removes the interventions. -/
def toldSinceReset (k : Desk) (parts : List Part) : List Event :=
  ((k.trace parts).rtakeWhile fun done => !done.1).flatMap Prod.snd

theorem toldSinceReset_concat (k : Desk) (parts : List Part) (p : Part) :
    k.toldSinceReset (parts ++ [p]) =
      if (k.run parts).clears p then [] else k.toldSinceReset parts ++ (k.run parts).told p := by
  have htrace : k.trace (parts ++ [p]) =
      k.trace parts ++ [((k.run parts).clears p, (k.run parts).told p)] := by
    rw [trace_append]
    rfl
  rw [toldSinceReset, htrace, List.rtakeWhile_concat]
  cases (k.run parts).clears p <;> simp [toldSinceReset]

theorem toldSinceReset_append {k : Desk} {parts more : List Part}
    (h : (k.run parts).Keeps more) :
    k.toldSinceReset (parts ++ more) =
      k.toldSinceReset parts ++ ((k.run parts).trace more).flatMap Prod.snd := by
  induction more using List.reverseRecOn with
  | nil => simp [trace]
  | append_singleton more p ih =>
    have htrace : (k.run parts).trace (more ++ [p]) = (k.run parts).trace more ++
        [((k.run (parts ++ more)).clears p, (k.run (parts ++ more)).told p)] := by
      rw [trace_append, run_append]
      rfl
    rw [Keeps, htrace] at h
    have hkeeps : (k.run parts).Keeps more := fun done hdone => h done (List.mem_append_left _ hdone)
    have hclears : (k.run (parts ++ more)).clears p = false :=
      h _ (List.mem_append_right _ (List.mem_singleton_self _))
    rw [← List.append_assoc, toldSinceReset_concat, hclears, ih hkeeps, htrace]
    simp

/-- The actions that parts take in. -/
def taken (k : Desk) : List Part → List (String × Action)
  | [] => []
  | p :: parts => k.marked p ++ (k.after p).taken parts

theorem taken_concat (k : Desk) (parts : List Part) (p : Part) :
    k.taken (parts ++ [p]) = k.taken parts ++ (k.run parts).marked p := by
  induction parts generalizing k with
  | nil => simp [taken]
  | cons q parts ih => simp [taken, ih]

/-- A cycle that delivers tells of what it delivers, in the same order, and of nothing else. -/
theorem told_of_delivered? {k : Desk} {p : Part} {list : List Intervention}
    (h : k.delivered? p = some list) : k.told p = list.map .created := by
  cases p with
  | move m =>
    cases m with
    | goOn path a =>
      obtain ⟨f, hf, hn, rfl⟩ := settle_fst_eq_some_iff.1 h
      refine told_eq ?_
      simp [Engine.after, goOn, step?, hf, hn, settle, deliver, publish, dropFlight]
    | _ => cases h
  | _ => cases h

theorem clears_of_delivered? {k : Desk} {p : Part} {list : List Intervention}
    (h : k.delivered? p = some list) : k.clears p = false := by
  cases p with
  | move m =>
    cases m with
    | goOn path a => rfl
    | _ => cases h
  | _ => cases h

theorem resolved_mem_told_iff {k : Desk} {p : Part} {id : String} {action : Action} :
    .resolved id action ∈ k.told p ↔ k.reply? p = some ((id, action), true) := by
  have hgranted : (id, action) ∈ k.granted p ↔ k.reply? p = some ((id, action), true) := by
    simp [granted]
  rw [← hgranted, ← (k.effect p).resolved, List.mem_filterMap]
  constructor
  · exact fun h => ⟨_, h, rfl⟩
  · rintro ⟨event, h, hact⟩
    rwa [← Event.eq_resolved_of_resolved? hact]

end Desk

/-! ### Interventions that are new -/

namespace Change

variable {e e' : Engine} {created : List Intervention} {marked : List (String × Action)}
  {clears : Bool}

theorem opened (h : Change e e' created marked clears) :
    ∀ i ∈ created, i.dismissed = none ∧ i.accepted = none := by
  cases h with
  | delivered _ _ hopen _ _ => exact hopen
  | acted _ _ _ _ _ hcreated _ _ _ _ => simp [hcreated]
  | cleared _ hcreated _ _ => simp [hcreated]

theorem ids_created (h : Change e e' created marked clears) :
    created.map Intervention.id =
      (List.range created.length).map fun k => e.ids (e.issued + k) := by
  cases h with
  | delivered _ _ _ hids _ => exact hids
  | acted _ _ _ _ _ hcreated _ _ _ _ => simp [hcreated]
  | cleared _ hcreated _ _ => simp [hcreated]

/-- Whatever is marked is among the interventions and was not acted on before. -/
theorem exists_of_marked (h : Change e e' created marked clears) :
    marked = [] ∨ ∃ i action, marked = [(i.id, action)] ∧ i ∈ e.interventions ∧
      i.isResolved = false := by
  cases h with
  | delivered _ hmarked _ _ _ => exact Or.inl hmarked
  | acted before i rest action _ _ hmarked hold hi _ =>
    exact Or.inr ⟨i, action, hmarked, by simp [hold], hi⟩
  | cleared _ _ hmarked _ => exact Or.inl hmarked

end Change

/-! ### The invariant -/

namespace Desk

/-- The events since the last reset and the actions that were taken in tell what the interventions
are. -/
structure Agrees (k : Desk) (since : List Event) (acts : List (String × Action)) : Prop where
  suffix : since <:+ k.engine.events
  live : k.engine.interventions =
    (since.filterMap Event.created?).map (Intervention.afterActs acts)
  /-- The identifiers in use are those of the interventions that were told of, in order. -/
  numbered : (k.engine.events.filterMap Event.created?).map Intervention.id =
    (List.range k.engine.issued).map k.engine.ids
  opened : ∀ i ∈ k.engine.events.filterMap Event.created?, i.dismissed = none ∧ i.accepted = none
  known : ∀ act ∈ acts, act.1 ∈ (k.engine.events.filterMap Event.created?).map Intervention.id
  once : (acts.map Prod.fst).Nodup
  /-- What was told of actions, and those that wait, were taken in. -/
  answered : (k.engine.events.filterMap Event.resolved? ++ k.waiting).Subperm acts

namespace Agrees

variable {k : Desk} {since : List Event} {acts : List (String × Action)}

theorem sublist_created (h : Agrees k since acts) :
    (since.filterMap Event.created?).Sublist (k.engine.events.filterMap Event.created?) :=
  h.suffix.sublist.filterMap _

theorem nodup_ids (h : Agrees k since acts) (hids : Function.Injective k.engine.ids) :
    ((since.filterMap Event.created?).map Intervention.id).Nodup := by
  refine List.Nodup.sublist (h.sublist_created.map _) ?_
  rw [h.numbered]
  exact List.nodup_range.map hids

/-- Only interventions that were told of since the last reset are marked, and none of them twice. -/
theorem marked_cases (h : Agrees k since acts) (p : Part) :
    k.marked p = [] ∨ ∃ i action, k.marked p = [(i.id, action)] ∧
      i ∈ since.filterMap Event.created? ∧ acts.lookup i.id = none := by
  rcases (k.effect p).change.exists_of_marked with hnone | ⟨j, action, hmarked, hj, hopen⟩
  · exact Or.inl hnone
  · rw [h.live] at hj
    obtain ⟨i, hi, rfl⟩ := List.mem_map.1 hj
    rw [Intervention.id_afterActs] at hmarked
    exact Or.inr ⟨i, action, hmarked, hi, Intervention.lookup_eq_none_of_unresolved hopen⟩

theorem known_marked (h : Agrees k since acts) {p : Part} {act : String × Action}
    (hact : act ∈ k.marked p) :
    act.1 ∈ (k.engine.events.filterMap Event.created?).map Intervention.id := by
  rcases h.marked_cases p with hnone | ⟨i, action, hmarked, hi, -⟩
  · simp [hnone] at hact
  · rw [hmarked, List.mem_singleton] at hact
    rw [hact]
    exact List.mem_map_of_mem (h.sublist_created.mem hi)

theorem once_marked (h : Agrees k since acts) (p : Part) :
    ((acts ++ k.marked p).map Prod.fst).Nodup := by
  rcases h.marked_cases p with hnone | ⟨i, action, hmarked, -, hlookup⟩
  · rw [hnone, List.append_nil]
    exact h.once
  · rw [hmarked, List.map_append]
    refine List.nodup_append'.2 ⟨h.once, List.nodup_singleton _, ?_⟩
    rintro id hid hnew
    obtain rfl := List.mem_singleton.1 hnew
    obtain ⟨act, hact, hact'⟩ := List.mem_map.1 hid
    have := List.lookup_eq_none_iff.1 hlookup act hact
    simp [hact'] at this

/-- No action names an intervention with a new identifier. -/
theorem lookup_eq_none_of_new (h : Agrees k since acts) (hids : Function.Injective k.engine.ids)
    {n : Nat} (hn : k.engine.issued ≤ n) : acts.lookup (k.engine.ids n) = none := by
  refine List.lookup_eq_none_iff.2 fun act hact => bne_iff_ne.2 fun heq => ?_
  have hknown := h.known act hact
  rw [h.numbered, ← heq] at hknown
  obtain ⟨m, hm, hmn⟩ := List.mem_map.1 hknown
  have := List.mem_range.1 hm
  have := hids hmn
  omega

/-- The interventions after a part are again what the events tell. -/
theorem live_after (h : Agrees k since acts) (hids : Function.Injective k.engine.ids) (p : Part) :
    (k.after p).engine.interventions =
      ((if k.clears p then [] else since ++ k.told p).filterMap Event.created?).map
        (Intervention.afterActs (acts ++ k.marked p)) := by
  cases (k.effect p).change with
  | delivered hclears hmarked hopen hnew hlist =>
    have hfresh : ∀ i ∈ (k.told p).filterMap Event.created?, i.afterActs acts = i := by
      intro i hi
      have hid := List.mem_map_of_mem (f := Intervention.id) hi
      rw [hnew] at hid
      obtain ⟨n, -, hn⟩ := List.mem_map.1 hid
      refine Intervention.afterActs_of_lookup_eq_none ?_
      rw [← hn]
      exact h.lookup_eq_none_of_new hids (Nat.le_add_right _ n)
    rw [hlist, hclears, hmarked, List.append_nil, if_neg Bool.false_ne_true, List.filterMap_append,
      List.map_append, h.live, List.map_congr_left hfresh, List.map_id']
  | acted before i rest action hclears hcreated hmarked hold hi hlist =>
    have hnodup := h.nodup_ids hids
    -- The one that is marked now stands among those that were told of, with its old flags.
    obtain ⟨told, told', hsplit, rfl, htold'⟩ := List.map_eq_append_iff.1 (h.live.symm.trans hold)
    obtain ⟨j, told', rfl, rfl, rfl⟩ := List.map_eq_cons_iff.1 htold'
    rw [hsplit, List.map_append, List.map_cons] at hnodup
    obtain ⟨-, hj, hdisjoint⟩ := List.nodup_append'.1 hnodup
    have hbefore : ∀ l ∈ told, l.id ≠ j.id := fun l hl heq =>
      hdisjoint (List.mem_map_of_mem hl) (heq ▸ List.mem_cons_self)
    have hafter : ∀ l ∈ told', l.id ≠ j.id := fun l hl heq =>
      (List.nodup_cons.1 hj).1 (heq ▸ List.mem_map_of_mem hl)
    have hlookup := Intervention.lookup_eq_none_of_unresolved hi
    rw [hlist, hclears, hmarked, if_neg Bool.false_ne_true, List.filterMap_append, hcreated,
      List.append_nil, hsplit, List.map_append, List.map_cons, Intervention.id_afterActs,
      Intervention.afterActs_concat_self hlookup,
      Intervention.afterActs_of_lookup_eq_none hlookup,
      List.map_congr_left fun l hl => Intervention.afterActs_concat_of_ne (hbefore l hl) action,
      List.map_congr_left fun l hl => Intervention.afterActs_concat_of_ne (hafter l hl) action]
  | cleared hclears hcreated hmarked hlist =>
    rw [hlist, hclears]
    rfl

protected theorem after (h : Agrees k since acts) (hids : Function.Injective k.engine.ids)
    (p : Part) :
    Agrees (k.after p) (if k.clears p then [] else since ++ k.told p) (acts ++ k.marked p) := by
  have heffect := k.effect p
  have hknown : ∀ act ∈ acts ++ k.marked p,
      act.1 ∈ (k.engine.events.filterMap Event.created?).map Intervention.id := by
    intro act hact
    rcases List.mem_append.1 hact with hact | hact
    · exact h.known act hact
    · exact h.known_marked hact
  constructor
  case suffix =>
    rw [heffect.events]
    split
    · exact List.nil_suffix
    · obtain ⟨earlier, hearlier⟩ := h.suffix
      exact ⟨earlier, by rw [← hearlier, List.append_assoc]⟩
  case live => exact h.live_after hids p
  case numbered =>
    rw [heffect.events, heffect.ids, heffect.issued, List.filterMap_append, List.map_append,
      h.numbered, heffect.change.ids_created, List.range_add, List.map_append, List.map_map]
    rfl
  case opened =>
    rw [heffect.events, List.filterMap_append]
    intro i hi
    exact (List.mem_append.1 hi).elim (h.opened i) (heffect.change.opened i)
  case known =>
    intro act hact
    rw [heffect.events, List.filterMap_append, List.map_append]
    exact List.mem_append_left _ (hknown act hact)
  case once => exact h.once_marked p
  case answered =>
    rw [heffect.events, List.filterMap_append, heffect.resolved, List.append_assoc]
    have hwaiting := ((List.Subperm.refl (k.engine.events.filterMap Event.resolved?)).append
      heffect.waiting)
    rw [← List.append_assoc _ k.waiting] at hwaiting
    exact hwaiting.trans (h.answered.append (List.Subperm.refl _))

end Agrees

@[simp] theorem ids_run (k : Desk) (parts : List Part) :
    (k.run parts).engine.ids = k.engine.ids := by
  induction parts generalizing k with
  | nil => rfl
  | cons p parts ih => rw [run_cons, ih, (k.effect p).ids]

/-- An engine that has done nothing yet, and nobody who waits. -/
def fresh (settings : Settings) (store : FeedbackStore) (ids : Nat → String) (clock : Instant) :
    Desk :=
  ⟨Engine.fresh settings store ids clock, []⟩

theorem agrees_run (settings : Settings) (store : FeedbackStore) {ids : Nat → String}
    (hids : Function.Injective ids) (clock : Instant) (parts : List Part) :
    let first := fresh settings store ids clock
    Agrees (first.run parts) (first.toldSinceReset parts) (first.taken parts) := by
  intro first
  -- From the end, since what was told begins anew after a reset, wherever the run began.
  induction parts using List.reverseRecOn with
  | nil => exact ⟨List.suffix_rfl, rfl, rfl, by simp [first, fresh, Engine.fresh], by simp [taken],
      List.nodup_nil, List.Subperm.refl _⟩
  | append_singleton parts p ih =>
    rw [run_concat, toldSinceReset_concat, taken_concat]
    exact ih.after (by rw [ids_run]; exact hids) p

/-! ### The order of events -/

/-- Every action is told of after the creation of its intervention. -/
def Heralded (events : List Event) : Prop :=
  ∀ before id action after, events = before ++ .resolved id action :: after →
    ∃ i, .created i ∈ before ∧ i.id = id

theorem heralded_append {events told : List Event} (h : Heralded events)
    (htold : ∀ id action, .resolved id action ∈ told → ∃ i, .created i ∈ events ∧ i.id = id) :
    Heralded (events ++ told) := by
  intro before id action after heq
  rcases List.append_eq_append_iff.1 heq with ⟨between, rfl, hrest⟩ | ⟨between, rfl, hrest⟩
  · obtain ⟨i, hi, hid⟩ := htold id action (by simp [hrest])
    exact ⟨i, List.mem_append_left _ hi, hid⟩
  · cases between with
    | nil =>
      rw [List.nil_append] at hrest
      rw [List.append_nil] at htold
      exact htold id action (hrest ▸ List.mem_cons_self)
    | cons event between =>
      obtain ⟨rfl, -⟩ := List.cons.inj hrest
      exact h before id action between rfl

/-- What a part tells of an action, it tells of an intervention that was told of before. -/
theorem Agrees.exists_created {k : Desk} {since : List Event} {acts : List (String × Action)}
    (h : Agrees k since acts) {p : Part} {id : String} {action : Action}
    (hp : .resolved id action ∈ k.told p) : ∃ i, .created i ∈ k.engine.events ∧ i.id = id := by
  have hgranted : (id, action) ∈ k.granted p := by
    rw [← (k.effect p).resolved]
    exact List.mem_filterMap.2 ⟨_, hp, rfl⟩
  have hknown : id ∈ (k.engine.events.filterMap Event.created?).map Intervention.id := by
    rcases List.mem_append.1 ((k.effect p).waiting.subset (List.mem_append_left _ hgranted))
      with hwaiting | hmarked
    · exact h.known _ (h.answered.subset (List.mem_append_right _ hwaiting))
    · exact h.known_marked hmarked
  obtain ⟨i, hi, hid⟩ := List.mem_map.1 hknown
  obtain ⟨event, hevent, hcreated⟩ := List.mem_filterMap.1 hi
  exact ⟨i, by rwa [← Event.eq_created_of_created? hcreated], hid⟩

theorem heralded_run (settings : Settings) (store : FeedbackStore) {ids : Nat → String}
    (hids : Function.Injective ids) (clock : Instant) (parts : List Part) :
    Heralded ((fresh settings store ids clock).run parts).engine.events := by
  induction parts using List.reverseRecOn with
  | nil =>
    intro before id action after heq
    simp [fresh, Engine.fresh] at heq
  | append_singleton parts p ih =>
    rw [run_concat, (effect _ p).events]
    exact heralded_append ih fun id action hp =>
      (agrees_run settings store hids clock parts).exists_created hp

end Desk

/-- **What is told is what there is.** In every run of moves and of parts of actions and resets, in
whatever order, where no identifier is given twice:

* the interventions that were told of as new since the last reset are, in order, those that there
  are, but for the flags, which show the actions that were taken in;
* the active ones are those of them that were not dismissed;
* a cycle that delivers tells of what it delivers as one block, which stays in one piece until the
  next reset, and nothing else is told of as new;
* an action is told of when it is answered with true, and only then; that is at most once for an
  intervention, and after its creation was told of. -/
theorem interventions_as_told (settings : Settings) (store : FeedbackStore) (ids : Nat → String)
    (hids : Function.Injective ids) (clock : Instant) (parts : List Part) :
    let first := Desk.fresh settings store ids clock
    let k := first.run parts
    let created := (first.toldSinceReset parts).filterMap Event.created?
    let acts := first.taken parts
    first.toldSinceReset parts <:+ k.engine.events ∧
    (k.engine.interventions.map Intervention.asCreated = created ∧
      k.engine.interventions = created.map (Intervention.afterActs acts)) ∧
    k.engine.active =
      (created.filter fun i => acts.lookup i.id ≠ some .dismissed).map
        (Intervention.afterActs acts) ∧
    (∀ before p after list, parts = before ++ p :: after →
      (first.run before).delivered? p = some list →
      (first.run before).told p = list.map .created ∧
        (((first.run before).after p).Keeps after → list <:+: created)) ∧
    (∀ p, (k.told p).filterMap Event.created? = (k.delivered? p).getD []) ∧
    (∀ p id action,
      .resolved id action ∈ k.told p ↔ k.reply? p = some ((id, action), true)) ∧
    (((k.engine.events.filterMap Event.resolved?).map Prod.fst).Nodup ∧
      (k.engine.events.filterMap Event.resolved?).Subperm acts) ∧
    Desk.Heralded k.engine.events := by
  intro first k created acts
  have h : k.Agrees (first.toldSinceReset parts) acts :=
    Desk.agrees_run settings store hids clock parts
  have hopened : ∀ i ∈ created, i.dismissed = none ∧ i.accepted = none :=
    fun i hi => h.opened i (h.sublist_created.mem hi)
  have hanswered : (k.engine.events.filterMap Event.resolved?).Subperm acts :=
    (List.sublist_append_left _ _).subperm.trans h.answered
  refine ⟨h.suffix, ⟨?_, h.live⟩, ?_, ?_, fun p => (k.effect p).created,
    fun p id action => Desk.resolved_mem_told_iff, ⟨?_, hanswered⟩,
    Desk.heralded_run settings store hids clock parts⟩
  · rw [h.live, List.map_map]
    exact (List.map_congr_left fun i hi =>
      Intervention.asCreated_afterActs (hopened i hi) acts).trans (List.map_id' created)
  · rw [active, h.live, List.filter_map]
    refine congrArg _ (List.filter_congr fun i hi => ?_)
    exact Intervention.isActive_afterActs (hopened i hi) acts
  · rintro before p after list rfl hlist
    have htold := Desk.told_of_delivered? hlist
    refine ⟨htold, fun hkeeps => ?_⟩
    have hall : (first.run before).Keeps (p :: after) :=
      List.forall_mem_cons.2 ⟨Desk.clears_of_delivered? hlist, hkeeps⟩
    refine ⟨(first.toldSinceReset before).filterMap Event.created?,
      (((first.run before).after p).trace after).flatMap Prod.snd |>.filterMap Event.created?, ?_⟩
    rw [show created = _ from congrArg (List.filterMap Event.created?)
      (Desk.toldSinceReset_append hall), Desk.trace, List.flatMap_cons, List.filterMap_append,
      List.filterMap_append, htold, filterMap_created?_map_created, List.append_assoc]
  · obtain ⟨list, hperm, hsub⟩ := hanswered
    exact (hperm.map Prod.fst).nodup_iff.1 (h.once.sublist (hsub.map Prod.fst))

/-- A finding is dismissed, and while the feedback is kept, another document is reviewed. The
dismissal is answered and told of after that delivery. -/
theorem dismissal_between_deliveries :
    let ids := fun n => String.ofList (List.replicate n 'x')
    let first := Desk.fresh .default (.fresh ⟨.empty [], .memory .empty .none⟩) ids ⟨0, 0⟩
    let parts : List Part := [.move (.start ⟨"// TODO: x", "text", "a.txt"⟩ .onDemand ⟨0, 0⟩),
      .move (.goOn "a.txt" (.ok "")), .act "" .dismissed none,
      .move (.start ⟨"// TODO: y", "text", "b.txt"⟩ .onDemand ⟨0, 0⟩), .goOn 0,
      .move (.goOn "b.txt" (.ok ""))]
    let k := first.run parts
    let created := (first.toldSinceReset parts).filterMap Event.created?
    Function.Injective ids ∧
    created.map Intervention.id = ["", "x"] ∧
    k.engine.interventions.map Intervention.asCreated = created ∧
    k.engine.active.map Intervention.id = ["x"] ∧
    k.reply? (.goOn 0) = some (("", .dismissed), true) ∧
    .resolved "" .dismissed ∈ k.told (.goOn 0) ∧
    Desk.Heralded (k.after (.goOn 0)).engine.events := by
  intro ids first parts k created
  have hids : Function.Injective ids := by
    intro m n h
    simpa [ids] using congrArg String.length h
  obtain ⟨-, ⟨hcreated, -⟩, -, -, -, htold, -⟩ :=
    interventions_as_told .default (.fresh ⟨.empty [], .memory .empty .none⟩) ids hids ⟨0, 0⟩ parts
  obtain ⟨-, -, -, -, -, -, -, hheralded⟩ :=
    interventions_as_told .default (.fresh ⟨.empty [], .memory .empty .none⟩) ids hids ⟨0, 0⟩
      (parts ++ [.goOn 0])
  have hreply : k.reply? (.goOn 0) = some (("", .dismissed), true) := by decide +kernel
  rw [Desk.run_concat] at hheralded
  exact ⟨hids, by decide +kernel, hcreated, by decide +kernel, hreply,
    (htold (.goOn 0) "" .dismissed).2 hreply, hheralded⟩

end Engine

end CodeCoach
