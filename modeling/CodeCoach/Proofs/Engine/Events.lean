import CodeCoach.Proofs.Engine.Cycles

/-!
# What moves tell

* `Engine.told`, the events that a move adds to those before, with `events_after`;
* `Event.created?`, `Event.resolved?`, what events tell of interventions;
* `Engine.delivered`, `Engine.resolved`, the interventions that a move delivers and the actions that
  it takes in;
* `created_told`, `resolved_told`: a move tells of these and of no others.
-/

namespace CodeCoach

/-- The intervention that an event says is new. -/
def Event.created? : Event → Option Intervention
  | .created i => some i
  | .resolved _ _ => none
  | .warning _ => none

/-- The action that an event says was taken, with the identifier of its intervention. -/
def Event.resolved? : Event → Option (String × Action)
  | .created _ => none
  | .resolved id action => some (id, action)
  | .warning _ => none

theorem Event.eq_created_of_created? {event : Event} {i : Intervention}
    (h : event.created? = some i) : event = .created i := by
  cases event with
  | created j => rw [Option.some.inj h]
  | resolved id action => cases h
  | warning message => cases h

theorem Event.eq_resolved_of_resolved? {event : Event} {id : String} {action : Action}
    (h : event.resolved? = some (id, action)) : event = .resolved id action := by
  cases event with
  | created j => cases h
  | resolved id' action' =>
    cases h
    rfl
  | warning message => cases h

theorem filterMap_created?_map_created (list : List Intervention) :
    (list.map Event.created).filterMap Event.created? = list := by
  rw [List.filterMap_map]
  exact List.filterMap_some

theorem filterMap_resolved?_map_created (list : List Intervention) :
    (list.map Event.created).filterMap Event.resolved? = [] := by
  simp [Event.resolved?]

namespace Engine

@[simp] theorem filterMap_created?_answerEvents (a : Answer) :
    (answerEvents a).filterMap Event.created? = [] := by
  cases a <;> rfl

@[simp] theorem filterMap_resolved?_answerEvents (a : Answer) :
    (answerEvents a).filterMap Event.resolved? = [] := by
  cases a <;> rfl

@[simp] theorem filterMap_created?_savingEvents (text : String) (r : Except StorageError Unit) :
    (savingEvents text r).filterMap Event.created? = [] := by
  rcases r with _ | ⟨⟨⟩⟩ <;> rfl

@[simp] theorem filterMap_resolved?_savingEvents (text : String) (r : Except StorageError Unit) :
    (savingEvents text r).filterMap Event.resolved? = [] := by
  rcases r with _ | ⟨⟨⟩⟩ <;> rfl

/-! ### Events of a move -/

/-- The events that a move adds to those before. -/
def told (e : Engine) (m : Move) : List Event := (e.after m).events.drop e.events.length

theorem told_eq {e : Engine} {m : Move} {events : List Event}
    (h : (e.after m).events = e.events ++ events) : e.told m = events := by
  rw [told, h, List.drop_left]

/-- A step of a cycle tells of a call that failed, or of what it delivers. -/
theorem events_goOn {e : Engine} {path : String} {f : Flight} (hf : e.flight? path = some f)
    (a : Answer) :
    (e.goOn path a).events = e.events ++
      match f.next with
      | .lookUp _ => []
      | .ask _ => answerEvents a
      | .deliver => (f.interventions e.ids e.issued e.clock).map .created := by
  cases hn : f.next with
  | lookUp i => simp [goOn, step?, hf, hn, lookUp, updateFlight]
  | ask q => simp [goOn, step?, hf, hn, answer, publish, updateFlight]
  | deliver => simp [goOn, step?, hf, hn, settle, deliver, publish, dropFlight]

/-- The interventions that a move delivers. -/
def delivered (e : Engine) : Move → List Intervention
  | .goOn path _ => (e.settle path).1.getD []
  | _ => []

/-- The action that a move takes in, with the identifier of its intervention. -/
def resolved (e : Engine) : Move → List (String × Action)
  | .act id action note => if (e.act id action note).1 then [(id, action)] else []
  | _ => []

/-- A move leaves what was told before as it is. Of interventions, it tells what it delivers and
which actions it takes in. -/
theorem exists_told (e : Engine) (m : Move) :
    ∃ events, (e.after m).events = e.events ++ events ∧
      events.filterMap Event.created? = e.delivered m ∧
      events.filterMap Event.resolved? = e.resolved m := by
  cases m with
  | start d trigger now =>
    obtain ⟨cooldown, flights, h⟩ := e.start_eq d trigger now
    exact ⟨[], by rw [after, h, List.append_nil], rfl, rfl⟩
  | goOn path a =>
    cases hf : e.flight? path with
    | none => exact ⟨[], by simp [after, goOn, step?, hf], by simp [delivered, settle, hf], rfl⟩
    | some f =>
      refine ⟨_, events_goOn hf a, ?_⟩
      cases hn : f.next with
      | lookUp i => simp [delivered, settle, hf, hn, resolved]
      | ask q => simp [delivered, settle, hf, hn, resolved]
      | deliver =>
        refine ⟨?_, filterMap_resolved?_map_created _⟩
        rw [filterMap_created?_map_created]
        simp [delivered, settle, hf, hn, deliver]
  | act id action note =>
    cases hm : markFirst id action e.interventions with
    | none => exact ⟨[], by simp [after, act, hm], rfl, by simp [resolved, act, hm]⟩
    | some marked =>
      obtain ⟨i, list⟩ := marked
      obtain ⟨before, j, rest, -, -, hid, -, rfl, -⟩ := markFirst_eq_some hm
      refine ⟨_, by simp only [after, act, hm, publish]; rfl, ?_, ?_⟩
      · simp [delivered, Event.created?]
      · simp [resolved, act, hm, Event.resolved?, hid]
  | reset => exact ⟨_, rfl, by simp [delivered], by simp [resolved]⟩
  | schedule d trigger =>
    refine ⟨[], ?_, rfl, rfl⟩
    simp only [after, schedule, List.append_nil]
    split <;> rfl
  | configure settings => exact ⟨[], by simp [after], rfl, rfl⟩
  | tick clock => exact ⟨[], by simp [after], rfl, rfl⟩
  | storage s => exact ⟨[], by simp [after], rfl, rfl⟩
  | abort path => exact ⟨[], by simp [after, abort, dropFlight], rfl, rfl⟩
  | unschedule path => exact ⟨[], by simp [after, unschedule], rfl, rfl⟩
  | elapse ms => exact ⟨[], by simp [after, advance], rfl, rfl⟩

theorem events_after (e : Engine) (m : Move) : (e.after m).events = e.events ++ e.told m := by
  obtain ⟨events, h, -, -⟩ := e.exists_told m
  rw [told_eq h, h]

@[simp] theorem created_told (e : Engine) (m : Move) :
    (e.told m).filterMap Event.created? = e.delivered m := by
  obtain ⟨events, h, hcreated, -⟩ := e.exists_told m
  rw [told_eq h, hcreated]

@[simp] theorem resolved_told (e : Engine) (m : Move) :
    (e.told m).filterMap Event.resolved? = e.resolved m := by
  obtain ⟨events, h, -, hresolved⟩ := e.exists_told m
  rw [told_eq h, hresolved]

theorem created_mem_told_iff {e : Engine} {m : Move} {i : Intervention} :
    .created i ∈ e.told m ↔ i ∈ e.delivered m := by
  rw [← created_told, List.mem_filterMap]
  constructor
  · exact fun h => ⟨_, h, rfl⟩
  · rintro ⟨event, h, hi⟩
    rwa [← Event.eq_created_of_created? hi]

theorem mem_delivered_iff {e : Engine} {m : Move} {i : Intervention} :
    i ∈ e.delivered m ↔
      ∃ path a list, m = .goOn path a ∧ (e.settle path).1 = some list ∧ i ∈ list := by
  cases m with
  | goOn path a =>
    rw [delivered]
    constructor
    · intro h
      cases hs : (e.settle path).1 with
      | none => simp [hs] at h
      | some list => exact ⟨path, a, list, rfl, hs, by simpa [hs] using h⟩
    · rintro ⟨other, b, list, hm, hs, h⟩
      cases hm
      simpa [hs] using h
  | _ => simp [delivered]

end Engine

end CodeCoach
