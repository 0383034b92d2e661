import CodeCoach.Engine
import CodeCoach.Proofs.FeedbackStore.Calls

/-!
# Runs of the engine

A run is any sequence of moves: cycles start, go on step by step and are dropped, developers act on
interventions, settings and the storage change, time passes, and none of them waits for another.

* `Engine.Move`, `Engine.after`, `Engine.run`;
* `Engine.calls`, `Engine.callsOf`, what moves ask of the feedback store, with `store_run`: the store
  changes by these calls and by nothing else;
* `Engine.Turnover`, the four things that a move may do to the interventions, and `turnover`.
-/

namespace CodeCoach.Engine

open FeedbackStore (Call)

/-- Something that happens to an engine. -/
inductive Move
  | configure (settings : Settings)
  /-- The time for new interventions and feedback changes. -/
  | tick (clock : Instant)
  /-- The storage changes from outside, for instance as to the requests that fail. -/
  | storage (s : Storage)
  | start (d : Document) (trigger : Trigger) (now : Instant)
  /-- The cycle of a path does its next step. If that is a question, it gets the answer. -/
  | goOn (path : String) (answer : Answer)
  | abort (path : String)
  | act (id : String) (action : Action) (note : Option String)
  | reset
  | schedule (d : Document) (trigger : Trigger)
  | unschedule (path : String)
  /-- Time passes for those who wait. The cycles of the documents that are due are moves of their
  own. -/
  | elapse (ms : Nat)

/-- Does the next step of the cycle of a path. -/
def goOn (e : Engine) (path : String) (a : Answer) : Engine :=
  match e.step? path with
  | none => e
  | some (.lookUp _) => e.lookUp path
  | some (.ask _) => e.answer path a
  | some .deliver => (e.settle path).2

/-- The engine after a move. -/
def after (e : Engine) : Move → Engine
  | .configure settings => { e with settings := settings }
  | .tick clock => { e with clock := clock }
  | .storage s => { e with store := { e.store with storage := s } }
  | .start d trigger now => (e.start d trigger now).2
  | .goOn path a => e.goOn path a
  | .abort path => e.abort path
  | .act id action note => (e.act id action note).2
  | .reset => e.reset
  | .schedule d trigger => e.schedule d trigger
  | .unschedule path => e.unschedule path
  | .elapse ms => (e.advance ms).2

/-- The engine after moves. -/
def run (e : Engine) (moves : List Move) : Engine := moves.foldl after e

@[simp] theorem run_nil (e : Engine) : e.run [] = e := rfl

@[simp] theorem run_cons (e : Engine) (m : Move) (moves : List Move) :
    e.run (m :: moves) = (e.after m).run moves := rfl

theorem run_append (e : Engine) (moves more : List Move) :
    e.run (moves ++ more) = (e.run moves).run more := List.foldl_append

theorem run_concat (e : Engine) (moves : List Move) (m : Move) :
    e.run (moves ++ [m]) = (e.run moves).after m := run_append e moves [m]

/-! ### Marking -/

theorem markFirst_eq_some {id : String} {action : Action} {list marked : List Intervention}
    {j : Intervention} (h : markFirst id action list = some (j, marked)) :
    ∃ before i after, list = before ++ i :: after ∧ (∀ k ∈ before, k.id ≠ id) ∧ i.id = id ∧
      i.isResolved = false ∧ j = i.mark action ∧ marked = before ++ i.mark action :: after := by
  induction list generalizing marked with
  | nil => cases h
  | cons k rest ih =>
    unfold markFirst at h
    split at h
    · rename_i hk
      obtain ⟨j', hj, e⟩ := Option.map_eq_some_iff.1 h
      obtain ⟨hres, rfl⟩ := Intervention.resolve?_eq_some_iff.1 hj
      cases e
      exact ⟨[], k, rest, rfl, by simp, by simpa using hk, hres, rfl, rfl⟩
    · rename_i hk
      obtain ⟨⟨j', rest'⟩, hj, e⟩ := Option.map_eq_some_iff.1 h
      cases e
      obtain ⟨before, i, after, rfl, hbefore, hid, hres, rfl, rfl⟩ := ih hj
      -- The first one has another identifier, and so have all before the one that is marked.
      refine ⟨k :: before, i, after, rfl, ?_, hid, hres, rfl, rfl⟩
      intro l hl
      rcases List.mem_cons.1 hl with rfl | hl
      · simpa using hk
      · exact hbefore l hl

/-- Nothing is marked exactly when the first intervention with the identifier, if there is one, was
acted on before. -/
theorem markFirst_eq_none {id : String} {action : Action} {list : List Intervention} :
    markFirst id action list = none ↔
      ∀ i, list.find? (fun i => i.id == id) = some i → i.isResolved = true := by
  induction list with
  | nil => simp [markFirst]
  | cons k rest ih =>
    unfold markFirst
    by_cases hk : k.id = id
    · simp [hk, Intervention.resolve?]
    · simpa [hk] using ih

/-! ### Calls of the store -/

/-- What a move asks of the feedback store. -/
def calls (e : Engine) : Move → List Call
  | .storage s => [.storage s]
  | .act id action note =>
    ((markFirst id action e.interventions).map fun (i, _) =>
      Call.record i action note e.clock).toList
  | .reset => [.reset]
  | .configure _ => []
  | .tick _ => []
  | .start .. => []
  | .goOn .. => []
  | .abort _ => []
  | .schedule .. => []
  | .unschedule _ => []
  | .elapse _ => []

theorem eq_reset_of_mem_calls {e : Engine} {m : Move} (h : Call.reset ∈ e.calls m) : m = .reset := by
  cases m with
  | reset => rfl
  | act id action note =>
    simp only [calls, Option.mem_toList, Option.map_eq_some_iff] at h
    obtain ⟨marked, -, h⟩ := h
    cases h
  | storage s => simp [calls] at h
  | _ => cases h

/-- What moves ask of the feedback store. -/
def callsOf (e : Engine) : List Move → List Call
  | [] => []
  | m :: moves => e.calls m ++ (e.after m).callsOf moves

theorem callsOf_append (e : Engine) (moves more : List Move) :
    e.callsOf (moves ++ more) = e.callsOf moves ++ (e.run moves).callsOf more := by
  induction moves generalizing e with
  | nil => rfl
  | cons m moves ih => simp [callsOf, ih]

theorem callsOf_concat (e : Engine) (moves : List Move) (m : Move) :
    e.callsOf (moves ++ [m]) = e.callsOf moves ++ (e.run moves).calls m := by
  rw [callsOf_append]
  simp [callsOf]

/-! ### What cycles leave alone -/

theorem start_eq (e : Engine) (d : Document) (trigger : Trigger) (now : Instant) :
    ∃ cooldown flights,
      (e.start d trigger now).2 = { e with cooldown := cooldown, flights := flights } := by
  unfold start
  split
  · exact ⟨_, _, rfl⟩
  · split
    · exact ⟨_, _, rfl⟩
    · split <;> rename_i h <;> obtain ⟨-, rfl⟩ := Prod.mk.inj h <;> exact ⟨_, _, rfl⟩

theorem goOn_eq (e : Engine) (path : String) (a : Answer) :
    ∃ flights interventions issued events, e.goOn path a =
      { e with
        flights := flights
        interventions := interventions
        issued := issued
        events := events } := by
  unfold goOn settle
  split
  · exact ⟨_, _, _, _, rfl⟩
  · exact ⟨_, _, _, _, rfl⟩
  · exact ⟨_, _, _, _, rfl⟩
  · split
    · exact ⟨_, _, _, _, rfl⟩
    · split <;> exact ⟨_, _, _, _, rfl⟩

theorem store_goOn (e : Engine) (path : String) (a : Answer) : (e.goOn path a).store = e.store := by
  obtain ⟨flights, interventions, issued, events, h⟩ := e.goOn_eq path a
  rw [h]

theorem store_start (e : Engine) (d : Document) (trigger : Trigger) (now : Instant) :
    (e.start d trigger now).2.store = e.store := by
  obtain ⟨cooldown, flights, h⟩ := e.start_eq d trigger now
  rw [h]

theorem store_after (e : Engine) (m : Move) : (e.after m).store = e.store.run (e.calls m) := by
  cases m with
  | start d trigger now => exact e.store_start d trigger now
  | goOn path a => exact e.store_goOn path a
  | act id action note =>
    simp only [after, act, calls]
    cases markFirst id action e.interventions <;> rfl
  | schedule d trigger =>
    simp only [after, schedule]
    split <;> rfl
  | _ => rfl

theorem store_run (e : Engine) (moves : List Move) :
    (e.run moves).store = e.store.run (e.callsOf moves) := by
  induction moves generalizing e with
  | nil => rfl
  | cons m moves ih => rw [run_cons, ih, store_after, callsOf, FeedbackStore.run_append]

/-! ### What a move does to the interventions -/

/-- What may become of the interventions when the engine makes calls of the feedback store. -/
inductive Turnover (e e' : Engine) (calls : List Call) : Prop
  | kept (hcalls : ∀ c ∈ calls, ∃ s, c = .storage s) (hlist : e'.interventions = e.interventions)
      (hissued : e'.issued = e.issued)
  | delivered (list : List Intervention) (hcalls : calls = [])
      (hfresh : ∀ i ∈ list, i.dismissed = none ∧ i.accepted = none)
      (hids : list.map Intervention.id =
        (List.range list.length).map fun k => e.ids (e.issued + k))
      (hlist : e'.interventions = e.interventions ++ list)
      (hissued : e'.issued = e.issued + list.length)
  | acted (before : List Intervention) (i : Intervention) (rest : List Intervention)
      (action : Action) (note : Option String)
      (hcalls : calls = [.record (i.mark action) action note e.clock])
      (hold : e.interventions = before ++ i :: rest) (hi : i.isResolved = false)
      (hlist : e'.interventions = before ++ i.mark action :: rest)
      (hissued : e'.issued = e.issued)
  | reset (hcalls : calls = [.reset]) (hlist : e'.interventions = [])
      (hissued : e'.issued = e.issued)

/-- An intervention is created without an action. -/
theorem open_of_mem_interventions {f : Flight} {ids : Nat → String} {start : Nat} {now : Instant}
    {i : Intervention} (h : i ∈ f.interventions ids start now) :
    i.dismissed = none ∧ i.accepted = none := by
  obtain ⟨k, hk, rfl⟩ := List.mem_mapIdx.1 h
  exact ⟨rfl, rfl⟩

/-- The first intervention takes the first number that is not in use, and so on. -/
theorem map_id_interventions (f : Flight) (ids : Nat → String) (start : Nat) (now : Instant) :
    (f.interventions ids start now).map Intervention.id =
      (List.range (f.interventions ids start now).length).map fun k => ids (start + k) := by
  apply List.ext_getElem
  · simp [Flight.interventions]
  · intro k hk hk'
    simp [Flight.interventions, Intervention.create]

theorem turnover_settle (e : Engine) (path : String) : Turnover e (e.settle path).2 [] := by
  unfold settle
  split
  · exact .kept (by simp) rfl rfl
  · split
    · rename_i f _ _
      exact .delivered (f.interventions e.ids e.issued e.clock) rfl
        (fun i => open_of_mem_interventions) (map_id_interventions f e.ids e.issued e.clock) rfl rfl
    · exact .kept (by simp) rfl rfl

theorem turnover (e : Engine) (m : Move) : Turnover e (e.after m) (e.calls m) := by
  cases m with
  | storage s => exact .kept (by simp [calls]) rfl rfl
  | start d trigger now =>
    obtain ⟨cooldown, flights, h⟩ := e.start_eq d trigger now
    exact .kept (by simp [calls]) (by rw [after, h]) (by rw [after, h])
  | goOn path a =>
    simp only [after, goOn, calls]
    split
    · exact .kept (by simp) rfl rfl
    · exact .kept (by simp) rfl rfl
    · exact .kept (by simp) rfl rfl
    · exact e.turnover_settle path
  | act id action note =>
    simp only [after, act, calls]
    cases h : markFirst id action e.interventions with
    | none => exact .kept (by simp) rfl rfl
    | some marked =>
      obtain ⟨j, list⟩ := marked
      obtain ⟨before, i, rest, hlist, -, -, hopen, rfl, rfl⟩ := markFirst_eq_some h
      exact .acted before i rest action note rfl hlist hopen rfl rfl
  | reset => exact .reset rfl rfl rfl
  | schedule d trigger =>
    simp only [after, schedule, calls]
    split <;> exact .kept (by simp) rfl rfl
  | _ => exact .kept (by simp [calls]) rfl rfl

@[simp] theorem ids_after (e : Engine) (m : Move) : (e.after m).ids = e.ids := by
  cases m with
  | start d trigger now =>
    obtain ⟨cooldown, flights, h⟩ := e.start_eq d trigger now
    rw [after, h]
  | goOn path a =>
    obtain ⟨flights, interventions, issued, events, h⟩ := e.goOn_eq path a
    rw [after, h]
  | act id action note =>
    simp only [after, act]
    split <;> rfl
  | schedule d trigger =>
    simp only [after, schedule]
    split <;> rfl
  | _ => rfl

@[simp] theorem ids_run (e : Engine) (moves : List Move) : (e.run moves).ids = e.ids := by
  induction moves generalizing e with
  | nil => rfl
  | cons m moves ih => rw [run_cons, ih, ids_after]

end CodeCoach.Engine
