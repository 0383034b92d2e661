import CodeCoach.Proofs.Engine.Desk
import CodeCoach.Proofs.FeedbackStore.Failure

/-!
# A reset begins afresh

Of an engine that was reset while no cycle was in flight, nothing is left but its settings and its
cooldown.

* `FeedbackStore.load_reset`: a storage that took in a reset holds nothing that was learned;
* `Engine.Reply`, `Engine.reply`, the answer to a move;
* `Engine.Twin`, two engines that differ only in what they told, and in how they count their
  identifiers; `Twin.after` and `Twin.run`: they stay so, and give the same answers;
* `resets_to_fresh`: an engine that was reset is the twin of a new one.
-/

namespace CodeCoach

/-! ### A storage after a reset -/

/-- What can be had from a storage is what it contains. -/
theorem Storage.Contains.eq_of_get? {s : Storage} {key : String} {v w : Json}
    (h : s.Contains key v) (hk : Folder.PlainKey key) (hv : Json.Legible 127 v)
    (hw : s.get? key = .ok (some w)) : w = v.sorted := by
  have hserves : s.Serves key := by
    intro values faults hmedium
    by_contra hfails
    rw [Bool.not_eq_false] at hfails
    simp [Storage.get?, hmedium, hfails] at hw
  rw [h.get? hk hv hserves] at hw
  exact (Option.some.inj (Except.ok.inj hw)).symm

namespace FeedbackStore

/-- A default is read where all that can be had under the key reads as the default. -/
theorem readOr_eq_default {α : Type} {s : Storage} {key : String} {dflt : α}
    {read : Json → Option α} (h : ∀ v, s.get? key = .ok (some v) → read v = some dflt) :
    readOr s key dflt read = dflt := by
  unfold readOr
  split
  · next v hv => rw [h v hv, Option.getD_some]
  · rfl

theorem storable_empty : Learning.empty.Storable :=
  Learning.storable_learnAll (List.forall_mem_nil fun f : Feedback => f.time.Proper)

/-- A storage from which nothing else can be had than the values of nothing learned holds nothing. -/
theorem stored_eq_empty_of_get? {s : Storage}
    (h : ∀ f ∈ values .empty, ∀ w, s.get? f.1 = .ok (some w) → w = f.2.sorted) :
    stored s = .empty := by
  have hhistory := h (historyKey, .arr []) (by simp [values, Learning.empty])
  have hpatterns := h (patternsKey, .arr []) (by simp [values, Learning.empty])
  have hrules := h (rulesKey, Rules.empty.toJson) (by simp [values, Learning.empty])
  unfold stored
  rw [readOr_eq_default fun v hv => by rw [hhistory v hv]; rfl,
    readOr_eq_default fun v hv => by rw [hpatterns v hv]; rfl,
    readOr_eq_default fun v hv => by
      rw [hrules v hv, Rules.ofJson?_toJson (by simp [Rules.empty])]]
  rfl

/-- A storage that has the values of nothing learned, or as much of them as can be had, holds
nothing. -/
theorem stored_eq_empty {s : Storage} (h : ∀ f ∈ values .empty, s.Contains f.1 f.2) :
    stored s = .empty :=
  stored_eq_empty_of_get? fun f hf _ => (h f hf).eq_of_get? (plainKey_of_mem_values f hf)
    (legible_values storable_empty f hf)

theorem contains_reset {s : FeedbackStore} (h : s.reset.1 = .ok ()) :
    ∀ f ∈ values .empty, s.reset.2.storage.Contains f.1 f.2 :=
  contains_persist (s := ⟨s.storage, .empty⟩) h

/-- After a reset that could be written, loading gives a store that has learned nothing. -/
theorem load_reset {s : FeedbackStore} (h : s.reset.1 = .ok ()) :
    load s.reset.2.storage = .fresh s.reset.2.storage := by
  have hstored : stored s.reset.2.storage = .empty := stored_eq_empty (contains_reset h)
  rw [load, hstored, fresh]

end FeedbackStore

namespace Engine

/-! ### Answers -/

/-- The answer to a move. -/
inductive Reply
  /-- Whether a cycle was started, or why it was not. -/
  | started (refusal : Option Refusal)
  /-- The step that a cycle did, if there was one, and what it delivered. -/
  | went (step : Option CodeCoach.Step) (delivered : Option (List Intervention))
  /-- Whether there was an unresolved intervention. -/
  | acted (known : Bool)
  /-- Whether a document waited. -/
  | unscheduled (waited : Bool)
  /-- The documents whose cycles are to begin. -/
  | due (documents : List (Waiting Awaiting))
  | done

/-- The answer of an engine to a move. -/
def reply (e : Engine) : Move → Reply
  | .start d trigger now => .started (e.start d trigger now).1
  | .goOn path _ => .went (e.step? path) (e.settle path).1
  | .act id action note => .acted (e.act id action note).1
  | .unschedule path => .unscheduled (e.timers.cancel path).1
  | .elapse ms => .due (e.advance ms).1
  | _ => .done

theorem told_reset (e : Engine) :
    e.told .reset = savingEvents "feedback reset could not be saved: " e.store.reset.1 :=
  told_eq (by simp only [after, reset, publish])

/-! ### Engines with another past -/

/-- The same engine with another past: other events were told, and the identifiers that it uses next
have other numbers. -/
def withPast (e : Engine) (ids : Nat → String) (issued : Nat) (events : List Event) : Engine :=
  { e with ids := ids, issued := issued, events := events }

section Past

variable (e : Engine) (ids : Nat → String) (issued : Nat) (events : List Event)

theorem start_withPast (d : Document) (trigger : Trigger) (now : Instant) :
    (e.withPast ids issued events).start d trigger now =
      ((e.start d trigger now).1, (e.start d trigger now).2.withPast ids issued events) := by
  have hflight : (e.withPast ids issued events).flight? d.path = e.flight? d.path := rfl
  have hsettings : (e.withPast ids issued events).settings = e.settings := rfl
  have hpass : (e.withPast ids issued events).passCooldown d.path now =
      ((e.passCooldown d.path now).1, (e.passCooldown d.path now).2.withPast ids issued events) :=
    rfl
  simp only [start, hflight, hsettings, hpass]
  split
  · rfl
  · split
    · rfl
    · rcases e.passCooldown d.path now with ⟨_ | _, e'⟩ <;> rfl

variable {ids issued}

theorem interventions_withPast (hids : ∀ n, ids (issued + n) = e.ids (e.issued + n)) (f : Flight)
    (now : Instant) :
    f.interventions ids issued now = f.interventions e.ids e.issued now := by
  simp only [Flight.interventions, hids]

theorem settle_withPast (hids : ∀ n, ids (issued + n) = e.ids (e.issued + n)) (path : String) :
    ((e.withPast ids issued events).settle path).1 = (e.settle path).1 := by
  have hflight : (e.withPast ids issued events).flight? path = e.flight? path := rfl
  unfold settle
  rw [hflight]
  cases e.flight? path with
  | none => rfl
  | some f =>
    simp only []
    split
    · exact congrArg some (e.interventions_withPast hids f e.clock)
    · rfl

theorem goOn_withPast (hids : ∀ n, ids (issued + n) = e.ids (e.issued + n)) (path : String)
    (a : Answer) :
    (e.withPast ids issued events).goOn path a =
      (e.goOn path a).withPast ids (issued + (e.delivered (.goOn path a)).length)
        (events ++ e.told (.goOn path a)) := by
  have hflight : (e.withPast ids issued events).flight? path = e.flight? path := rfl
  cases hf : e.flight? path with
  | none =>
    have hgoOn : e.goOn path a = e := by simp [goOn, step?, hf]
    have htold : e.told (.goOn path a) = [] :=
      told_eq (by rw [after, hgoOn, List.append_nil])
    rw [htold, hgoOn]
    simp [goOn, step?, hflight, hf, delivered, settle]
  | some f =>
    cases hn : f.next with
    | lookUp i =>
      have hgoOn : e.goOn path a = e.lookUp path := by simp [goOn, step?, hf, hn]
      have htold : e.told (.goOn path a) = [] :=
        told_eq (by rw [after, hgoOn, List.append_nil]; rfl)
      rw [htold, hgoOn]
      simp [goOn, step?, hflight, hf, hn, delivered, settle]
      rfl
    | ask q =>
      have hgoOn : e.goOn path a = e.answer path a := by simp [goOn, step?, hf, hn]
      have htold : e.told (.goOn path a) = answerEvents a := told_eq (by rw [after, hgoOn]; rfl)
      rw [htold, hgoOn]
      simp [goOn, step?, hflight, hf, hn, delivered, settle]
      rfl
    | deliver =>
      have hgoOn : e.goOn path a = (e.deliver f).2 := by simp [goOn, step?, settle, hf, hn]
      have hlist : e.delivered (.goOn path a) = f.interventions e.ids e.issued e.clock := by
        simp [delivered, settle, hf, hn, deliver]
      have htold : e.told (.goOn path a) =
          (f.interventions e.ids e.issued e.clock).map .created :=
        told_eq (by rw [after, hgoOn]; rfl)
      have hown : (e.withPast ids issued events).goOn path a =
          ((e.withPast ids issued events).deliver f).2 := by
        simp [goOn, step?, settle, hflight, hf, hn]
      rw [htold, hgoOn, hlist, hown]
      simp only [deliver, publish, withPast, dropFlight, e.interventions_withPast hids f e.clock]

variable (issued)

theorem after_withPast (hids : ∀ n, ids (issued + n) = e.ids (e.issued + n)) (m : Move) :
    (e.withPast ids issued events).after m =
      (e.after m).withPast ids (issued + (e.delivered m).length) (events ++ e.told m) := by
  have hquiet : ∀ {m : Move} {next : Engine}, e.after m = next → next.events = e.events →
      e.told m = [] := by
    intro m next h hevents
    exact told_eq (by rw [h, hevents, List.append_nil])
  cases m with
  | goOn path a => exact e.goOn_withPast events hids path a
  | start d trigger now =>
    obtain ⟨cooldown, flights, h⟩ := e.start_eq d trigger now
    rw [hquiet (m := .start d trigger now) h rfl, List.append_nil, after, start_withPast]
    rfl
  | act id action note =>
    cases hm : markFirst id action e.interventions with
    | none =>
      have hact : e.after (.act id action note) = e := by simp [after, act, hm]
      have hown : (e.withPast ids issued events).after (.act id action note) =
          e.withPast ids issued events := by simp [after, act, withPast, hm]
      rw [hquiet hact rfl, hact, hown, List.append_nil]
      rfl
    | some found =>
      obtain ⟨i, interventions⟩ := found
      have hact : (e.after (.act id action note)).events = e.events ++
          (savingEvents "feedback could not be saved and will be lost on restart: "
            (e.store.record (i.feedback action note e.clock)).1 ++ [.resolved i.id action]) := by
        simp [after, act, publish, hm]
      rw [told_eq hact]
      simp [after, act, publish, withPast, delivered, hm]
  | reset =>
    rw [told_reset]
    simp only [after, reset, publish, withPast, delivered, List.length_nil, Nat.add_zero]
  | schedule d trigger =>
    have hschedule : (e.after (.schedule d trigger)).events = e.events := by
      simp only [after, schedule]
      split <;> rfl
    have hsettings : (e.withPast ids issued events).settings = e.settings := rfl
    rw [hquiet rfl hschedule, List.append_nil]
    simp only [after, schedule, hsettings]
    split <;> rfl
  | configure settings => rw [hquiet rfl rfl, List.append_nil]; rfl
  | tick clock => rw [hquiet rfl rfl, List.append_nil]; rfl
  | storage s => rw [hquiet rfl rfl, List.append_nil]; rfl
  | abort path => rw [hquiet rfl rfl, List.append_nil]; rfl
  | unschedule path => rw [hquiet rfl rfl, List.append_nil]; rfl
  | elapse ms => rw [hquiet rfl rfl, List.append_nil]; rfl

theorem told_withPast (hids : ∀ n, ids (issued + n) = e.ids (e.issued + n)) (m : Move) :
    (e.withPast ids issued events).told m = e.told m :=
  told_eq (by rw [after_withPast e issued events hids]; rfl)

theorem reply_withPast (hids : ∀ n, ids (issued + n) = e.ids (e.issued + n)) (m : Move) :
    (e.withPast ids issued events).reply m = e.reply m := by
  cases m with
  | start d trigger now => rw [reply, start_withPast, reply]
  | goOn path a => rw [reply, settle_withPast e events hids, reply]; rfl
  | act id action note =>
    simp only [reply, act, withPast]
    cases markFirst id action e.interventions <;> rfl
  | _ => rfl

end Past

/-! ### Twins -/

/-- Two engines that differ only in their past, and use the same identifiers from here on. -/
structure Twin (e e' : Engine) : Prop where
  eq : e' = e.withPast e'.ids e'.issued e'.events
  ids : ∀ n, e'.ids (e'.issued + n) = e.ids (e.issued + n)

namespace Twin

variable {e e' : Engine}

theorem reply (h : Twin e e') (m : Move) : e'.reply m = e.reply m := by
  rw [h.eq]
  exact e.reply_withPast _ _ h.ids m

theorem told (h : Twin e e') (m : Move) : e'.told m = e.told m := by
  rw [h.eq]
  exact e.told_withPast _ _ h.ids m

theorem state (h : Twin e e') :
    (∀ path, e'.phase path = e.phase path) ∧ e'.interventions = e.interventions ∧
      e'.store = e.store ∧ e'.pending = e.pending ∧ e'.cooldown = e.cooldown := by
  rw [h.eq]
  exact ⟨fun path => rfl, rfl, rfl, rfl, rfl⟩

theorem after (h : Twin e e') (m : Move) : Twin (e.after m) (e'.after m) := by
  have hafter := e.after_withPast e'.issued e'.events h.ids m
  rw [← h.eq] at hafter
  constructor
  · rw [hafter]
    rfl
  · intro n
    rw [hafter, ids_after, (e.change_after m).2]
    show e'.ids (e'.issued + (e.delivered m).length + n) = _
    rw [Nat.add_assoc, h.ids, Nat.add_assoc]

theorem run (h : Twin e e') (moves : List Move) : Twin (e.run moves) (e'.run moves) := by
  induction moves generalizing e e' with
  | nil => exact h
  | cons m moves ih => exact ih (h.after m)

end Twin

/-! ### Resets -/

theorem flights_eq_nil_of_idle {e : Engine} (h : ∀ path, e.phase path = .idle) :
    e.flights = [] := by
  refine List.eq_nil_iff_forall_not_mem.2 fun f hf => ?_
  have hnone := List.find?_eq_none.1 (phase_eq_idle_iff.1 (h f.document.path)) f hf
  simp at hnone

/-- **A reset leaves nothing but the cooldown.** When an engine is reset while no cycle is in flight,
and the storage takes it in:

* no intervention, no document that waits and nothing that was learned is left, and nothing is told;
* the storage has under each key what is written of nothing learned, and loading it gives a store
  that has learned nothing;
* the cooldown is as before;
* let a new engine have the same settings, the store that is loaded, and the old cooldown, at the
  same time and with those identifiers that are not in use. Then in any run from here on, both
  engines give the same answers to all moves, tell the same events, and agree about phases,
  interventions, feedback, storage, documents that wait and the cooldown. -/
theorem resets_to_fresh (e : Engine) (hidle : ∀ path, e.phase path = .idle)
    (hok : e.store.reset.1 = .ok ()) :
    let old := e.reset
    let new : Engine :=
      { fresh e.settings (.load old.store.storage) (fun n => e.ids (e.issued + n)) e.clock with
        cooldown := e.cooldown
        timers := ⟨e.timers.now, []⟩ }
    (old.interventions = [] ∧ old.pending = 0 ∧ old.store.learning = ⟨[], [], .empty⟩ ∧
      e.told .reset = []) ∧
    (∀ f ∈ FeedbackStore.values .empty, old.store.storage.Contains f.1 f.2) ∧
    FeedbackStore.load old.store.storage = .fresh old.store.storage ∧
    old.cooldown = e.cooldown ∧
    ∀ moves,
      (∀ m, (old.run moves).reply m = (new.run moves).reply m ∧
        (old.run moves).told m = (new.run moves).told m) ∧
      (∀ path, (old.run moves).phase path = (new.run moves).phase path) ∧
      (old.run moves).interventions = (new.run moves).interventions ∧
      (old.run moves).store = (new.run moves).store ∧
      (old.run moves).pending = (new.run moves).pending ∧
      (old.run moves).cooldown = (new.run moves).cooldown := by
  intro old new
  have hload : FeedbackStore.load old.store.storage = .fresh old.store.storage :=
    FeedbackStore.load_reset hok
  refine ⟨⟨rfl, rfl, rfl, ?_⟩, FeedbackStore.contains_reset hok, hload, rfl, fun moves => ?_⟩
  · rw [told_reset, hok]
    rfl
  · have htwin : Twin new old := by
      refine ⟨?_, fun n => ?_⟩
      · simp only [new, hload, withPast, fresh]
        rw [← flights_eq_nil_of_idle hidle]
        rfl
      · show e.ids (e.issued + n) = e.ids (e.issued + (0 + n))
        rw [Nat.zero_add]
    have hlater := htwin.run moves
    exact ⟨fun m => ⟨hlater.reply m, hlater.told m⟩, hlater.state⟩

/-- A marker was reviewed and dismissed, and the document waits. After a reset it still cools down,
and once that is over, it is reviewed as if for the first time. -/
theorem reset_while_waiting :
    let d : Document := ⟨"// TODO: x", "text", "a.txt"⟩
    let ids := fun n => String.ofList (List.replicate n 'x')
    let e := (fresh .default (.fresh ⟨.empty [], .memory .empty .none⟩) ids ⟨0, 0⟩).run
      [.start d .onDemand ⟨0, 0⟩, .goOn d.path (.ok ""), .act "" .dismissed none,
        .schedule d .change]
    let new : Engine :=
      { fresh e.settings (.load e.reset.store.storage) (fun n => e.ids (e.issued + n)) e.clock with
        cooldown := e.cooldown
        timers := ⟨e.timers.now, []⟩ }
    (e.interventions.length = 1 ∧ e.pending = 1 ∧ e.store.learning.history.length = 1) ∧
    (∀ path, e.phase path = .idle) ∧ e.store.reset.1 = .ok () ∧
    (e.reset.interventions = [] ∧ e.reset.pending = 0 ∧
      e.reset.store.learning = ⟨[], [], .empty⟩) ∧
    (e.reset.start d .save ⟨1, 0⟩).1 = some .coolingDown ∧
    let review := [.start d .save ⟨30, 0⟩, .goOn d.path (.ok ""), .goOn d.path (.ok "")]
    (e.reset.run review).interventions = (new.run review).interventions ∧
      (e.reset.run review).interventions.map Intervention.id = ["x"] := by
  intro d ids e new
  have hidle : ∀ path, e.phase path = .idle := by
    intro path
    have hflights : e.flights = [] := by decide +kernel
    exact phase_eq_idle_iff.2 (by simp [flight?, hflights])
  have hok : e.store.reset.1 = .ok () := by decide +kernel
  obtain ⟨⟨hnone, hpending, hlearned, -⟩, -, -, -, hruns⟩ := resets_to_fresh e hidle hok
  refine ⟨⟨by decide +kernel, by decide +kernel, by decide +kernel⟩, hidle, hok,
    ⟨hnone, hpending, hlearned⟩, by decide +kernel, ?_, by decide +kernel⟩
  exact (hruns _).2.2.1

end Engine

end CodeCoach
