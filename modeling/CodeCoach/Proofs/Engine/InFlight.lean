import CodeCoach.Proofs.Engine.Cycles
import CodeCoach.Session

/-!
# One cycle of a document at a time

Which cycles are in flight is told here by the past of a run: those that were let through, and
neither delivered nor were dropped since. The engine knows no past; it holds flights.

* `Engine.InFlight`, a cycle in flight, known by the moves before it began;
* `inFlight_run_of_free`, `inFlight_run`: a path has one cycle in flight where the engine holds a
  flight, and none elsewhere;
* `one_cycle_per_path`, what that means for phases and requests.
-/

namespace CodeCoach

namespace Engine

/-- The cycle of a path that the move after `before` let through is in flight after `moves`. -/
def InFlight (e : Engine) (moves : List Move) (path : String) (before : List Move) : Prop :=
  ∃ m after, moves = before ++ m :: after ∧ (e.run before).Begins m path ∧
    (e.run (before ++ [m])).Lasts path after

theorem inFlight_concat {e : Engine} {moves : List Move} {m : Move} {path : String}
    {before : List Move} :
    e.InFlight (moves ++ [m]) path before ↔
      (before = moves ∧ (e.run moves).Begins m path) ∨
        (e.InFlight moves path before ∧ ¬ (e.run moves).Ends m path) := by
  constructor
  · rintro ⟨n, after, heq, hbegins, hlasts⟩
    -- The cycle begins with the last move, or it lasted until then.
    rcases List.eq_nil_or_concat after with rfl | ⟨after, k, rfl⟩
    · obtain ⟨rfl, hn⟩ := List.append_inj' heq rfl
      obtain rfl : m = n := by simpa using hn
      exact Or.inl ⟨rfl, hbegins⟩
    · have heq : moves ++ [m] = (before ++ n :: after) ++ [k] := by simpa using heq
      obtain ⟨rfl, hk⟩ := List.append_inj' heq rfl
      obtain rfl : m = k := by simpa using hk
      obtain ⟨hlasts, hends⟩ := lasts_concat.1 (by simpa using hlasts)
      rw [← run_append, List.append_assoc, List.singleton_append] at hends
      exact Or.inr ⟨⟨n, after, rfl, hbegins, hlasts⟩, hends⟩
  · rintro (⟨rfl, hbegins⟩ | ⟨⟨n, after, rfl, hbegins, hlasts⟩, hends⟩)
    · exact ⟨m, [], rfl, hbegins, trivial⟩
    · refine ⟨n, after ++ [m], by simp, hbegins, lasts_concat.2 ⟨hlasts, ?_⟩⟩
      rwa [← run_append, List.append_assoc, List.singleton_append]

/-- Where the engine holds a flight, one cycle of the path is in flight; elsewhere none is. -/
theorem inFlight_run_of_free {e : Engine} {path : String} (h : e.flight? path = none)
    (moves : List Move) :
    ((e.run moves).flight? path = none ∧ ∀ before, ¬ e.InFlight moves path before) ∨
      (((e.run moves).flight? path).isSome ∧
        ∃ began, ∀ before, e.InFlight moves path before ↔ before = began) := by
  induction moves using List.reverseRecOn with
  | nil =>
    refine Or.inl ⟨h, ?_⟩
    rintro before ⟨m, after, heq, -⟩
    simp at heq
  | append_singleton moves m ih =>
    simp only [inFlight_concat, run_concat]
    by_cases hbegins : (e.run moves).Begins m path
    · -- It begins because there was none.
      obtain ⟨hfree, hflight⟩ := isSome_flight?_of_begins hbegins
      have hnone : ∀ before, ¬ e.InFlight moves path before := by
        rcases ih with ⟨-, hnone⟩ | ⟨hsome, -⟩
        · exact hnone
        · simp [hfree] at hsome
      exact Or.inr ⟨hflight, moves, fun before => by simp [hbegins, hnone before]⟩
    · by_cases hends : (e.run moves).Ends m path
      · exact Or.inl ⟨flight?_of_ends hends, fun before => by simp [hbegins, hends]⟩
      · rw [flight?_after hbegins hends]
        simpa [hbegins, hends] using ih

theorem inFlight_run {e : Engine} (h : e.flights = []) (moves : List Move) (path : String) :
    ((e.run moves).flight? path = none ∧ ∀ before, ¬ e.InFlight moves path before) ∨
      (((e.run moves).flight? path).isSome ∧
        ∃ began, ∀ before, e.InFlight moves path before ↔ before = began) :=
  inFlight_run_of_free (by simp [flight?, h]) moves

/-! ### Phases -/

theorem phase_eq_idle_iff {e : Engine} {path : String} :
    e.phase path = .idle ↔ e.flight? path = none := by
  unfold phase
  cases e.flight? path with
  | none => simp
  | some f => cases hstage : f.stage <;> simp [hstage]

theorem phase_congr {e e' : Engine} {path : String} (h : e'.flight? path = e.flight? path) :
    e'.phase path = e.phase path := by
  rw [phase, h, phase]

/-- The end of a cycle leaves the other flights alone. -/
theorem flight?_of_ends_of_ne {e : Engine} {m : Move} {path other : String} (h : e.Ends m path)
    (hne : other ≠ path) : (e.after m).flight? other = e.flight? other := by
  rcases h with rfl | ⟨a, rfl, -⟩
  · rw [after, abort, flight?_dropFlight, if_neg hne]
  · rw [after, flight?_goOn, if_neg hne]

end Engine

/-! ### Requests -/

namespace Session

theorem request_of_flight {s : Session} {d : Document} (h : (s.engine.flight? d.path).isSome)
    (trigger : Trigger) (now : Instant) :
    s.request d trigger now =
      (some (.refused (if trigger ≠ .onDemand ∧ s.engine.settings.proactive = false then .disabled
        else .busy)), s) := by
  rw [request, Engine.start_of_flight h]

theorem save_of_flight {s : Session} {d : Document} (h : (s.engine.flight? d.path).isSome) :
    s.save d =
      (some (.refused (if s.engine.settings.proactive = false then .disabled else .busy)),
        { s with engine := s.engine.unschedule d.path }) := by
  have hsame : (s.engine.unschedule d.path).flight? d.path = s.engine.flight? d.path := rfl
  rw [save, request_of_flight (by rw [hsame]; exact h)]
  simp [Engine.unschedule]

end Session

namespace Engine

/-- **One cycle of a document at a time.** In every run of an engine:

* no path has two cycles in flight, and its phase is idle exactly while none is;
* a request for a path with a cycle in flight is answered that the engine is busy, or that it does
  not act on its own; but for the wait of a document that was saved, nothing changes;
* a cycle that delivers, is dropped or has to cool down leaves its path idle, and the phases of other
  paths as they were;
* cycles of other paths keep nobody busy. -/
theorem one_cycle_per_path (settings : Settings) (store : FeedbackStore) (ids : Nat → String)
    (clock : Instant) (moves : List Move) :
    let first := fresh settings store ids clock
    let e := first.run moves
    (∀ path before before', first.InFlight moves path before → first.InFlight moves path before' →
      before = before') ∧
    (∀ path, e.phase path ≠ .idle ↔ ∃ before, first.InFlight moves path before) ∧
    (∀ d, (∃ before, first.InFlight moves d.path before) →
      (∀ trigger now, e.start d trigger now =
        (some (if trigger ≠ .onDemand ∧ e.settings.proactive = false then .disabled else .busy),
          e)) ∧
      ∀ s : Session, s.engine = e → s.save d =
        (some (.refused (if e.settings.proactive = false then .disabled else .busy)),
          { s with engine := { e with timers := (e.timers.cancel d.path).2 } })) ∧
    (∀ m path, e.Ends m path → (e.after m).phase path = .idle ∧
      ∀ other, other ≠ path → (e.after m).phase other = e.phase other) ∧
    (∀ d trigger now, (e.start d trigger now).1 = some .coolingDown →
      (e.start d trigger now).2.phase d.path = .idle ∧
        ∀ path, (e.start d trigger now).2.phase path = e.phase path) ∧
    (∀ d trigger now, (∀ before, ¬ first.InFlight moves d.path before) →
      (e.start d trigger now).1 ≠ some .busy) := by
  intro first e
  have hrun := inFlight_run (e := first) rfl moves
  have hflight : ∀ path, (e.flight? path).isSome ↔ ∃ before, first.InFlight moves path before := by
    intro path
    rcases hrun path with ⟨hfree, hnone⟩ | ⟨hsome, began, hiff⟩
    · simp [e, hfree, hnone]
    · exact iff_of_true hsome ⟨began, (hiff began).2 rfl⟩
  refine ⟨?_, ?_, ?_, ?_, ?_, ?_⟩
  · intro path before before' h h'
    rcases hrun path with ⟨-, hnone⟩ | ⟨-, began, hiff⟩
    · exact absurd h (hnone before)
    · exact ((hiff before).1 h).trans ((hiff before').1 h').symm
  · intro path
    rw [ne_eq, phase_eq_idle_iff, ← ne_eq, Option.ne_none_iff_isSome, hflight]
  · intro d h
    have hsome := (hflight d.path).2 h
    refine ⟨start_of_flight hsome, fun s hs => ?_⟩
    rw [Session.save_of_flight (by rw [hs]; exact hsome), hs]
    rfl
  · intro m path h
    exact ⟨phase_eq_idle_iff.2 (flight?_of_ends h),
      fun other hne => phase_congr (flight?_of_ends_of_ne h hne)⟩
  · intro d trigger now h
    have hsame : ∀ path, (e.start d trigger now).2.phase path = e.phase path := fun path =>
      phase_congr (flight?_of_refused (by simp [h]) path)
    refine ⟨?_, hsame⟩
    rw [hsame, phase_eq_idle_iff]
    exact (start_of_coolingDown h).1
  · intro d trigger now hnone hbusy
    obtain ⟨before, h⟩ := (hflight d.path).1 (flight?_of_busy hbusy)
    exact hnone before h

/-- While a review waits for an answer, another one of the document is refused, until the first one
is dropped. -/
theorem busy_until_dropped :
    let d : Document := ⟨"// TODO: x", "text", "a.txt"⟩
    let ids := fun n => String.ofList (List.replicate n 'x')
    let e := (fresh { Settings.default with enhance := true }
      (.fresh ⟨.empty [], .memory .empty .none⟩) ids ⟨0, 0⟩).run [.start d .onDemand ⟨0, 0⟩]
    e.phase d.path ≠ .idle ∧ e.start d .save ⟨30, 0⟩ = (some .busy, e) ∧
      (e.after (.abort d.path)).phase d.path = .idle := by
  intro d ids e
  obtain ⟨-, hphase, hbusy, hends, -⟩ := one_cycle_per_path
    { Settings.default with enhance := true } (.fresh ⟨.empty [], .memory .empty .none⟩) ids ⟨0, 0⟩
    [.start d .onDemand ⟨0, 0⟩]
  have hflight : InFlight (fresh { Settings.default with enhance := true }
      (.fresh ⟨.empty [], .memory .empty .none⟩) ids ⟨0, 0⟩) [.start d .onDemand ⟨0, 0⟩] d.path [] :=
    ⟨_, [], rfl, ⟨d, .onDemand, ⟨0, 0⟩, rfl, rfl, by decide +kernel⟩, trivial⟩
  refine ⟨(hphase d.path).2 ⟨[], hflight⟩, ?_, (hends (.abort d.path) d.path (Or.inl rfl)).1⟩
  refine ((hbusy d ⟨[], hflight⟩).1 .save ⟨30, 0⟩).trans ?_
  rw [if_neg (by decide)]

end Engine

end CodeCoach
