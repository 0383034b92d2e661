import CodeCoach.Proofs.Engine.Cycles
import CodeCoach.Session
import Mathlib.Data.List.SplitBy

/-!
# What turns leave alone

Whoever takes a turn goes on with a cycle of a session. Settings and timers stay as they are, and no
cycle is started but of those paths whose documents were due.

* `Session.Undisturbed`, a session with one engine that has gone on in this way;
* `Rota.undisturbed_perform`, a step of a cycle, and `Session.undisturbed_takeTurns`, all turns;
* `Session.undisturbed_request`, a request, and `Session.undisturbed_sleep`, all that comes of the
  documents that are due while time passes.
-/

namespace CodeCoach

namespace Session

/-! ### What turns leave alone -/

/-- A session with one engine has gone on: settings and timers are the same, and cycles were started
of some paths only. -/
structure Undisturbed (paths : List String) (s s' : Session) : Prop where
  alone : s'.earlier = []
  settings : s'.engine.settings = s.engine.settings
  timers : s'.engine.timers = s.engine.timers
  free : ∀ path, path ∉ paths → s.engine.flight? path = none → s'.engine.flight? path = none

namespace Undisturbed

variable {paths more : List String} {s s' s'' : Session}

theorem refl (h : s.earlier = []) : Undisturbed [] s s := ⟨h, rfl, rfl, fun _ _ h => h⟩

theorem trans (h : Undisturbed paths s s') (h' : Undisturbed more s' s'') :
    Undisturbed (paths ++ more) s s'' where
  alone := h'.alone
  settings := h'.settings.trans h.settings
  timers := h'.timers.trans h.timers
  free := by
    intro path hpath hfree
    rw [List.mem_append, not_or] at hpath
    exact h'.free path hpath.2 (h.free path hpath.1 hfree)

end Undisturbed

/-- With one engine, the engine of any number is that one. -/
theorem engineAt_of_alone {s : Session} (h : s.earlier = []) (n : Nat) : s.engineAt n = s.engine := by
  simp [engineAt, h]

theorem setEngine_of_alone {s : Session} (h : s.earlier = []) (n : Nat) (e : Engine) :
    s.setEngine n e = { s with engine := e } := by
  simp [setEngine, h]

end Session

namespace Rota

open Session (Undisturbed)

variable {s : Session}

/-- A step of a cycle. -/
theorem undisturbed_perform {r : Rota} (h : Undisturbed [] s r.session) (c : CycleId) (step : Step) :
    Undisturbed [] s (r.perform c step).session := by
  have hfree : ∀ e : Engine, e.settings = r.session.engine.settings →
      e.timers = r.session.engine.timers →
      (∀ path, r.session.engine.flight? path = none → e.flight? path = none) →
      Undisturbed [] s { r.session with engine := e } := fun e hsettings htimers hflight =>
    h.trans ⟨h.alone, hsettings, htimers, fun path _ => hflight path⟩
  cases step with
  | lookUp i =>
    simp only [perform, updateEngine, Session.updateEngine, Session.engineAt_of_alone h.alone,
      Session.setEngine_of_alone h.alone]
    refine hfree _ rfl rfl fun path hpath => ?_
    rw [Engine.lookUp, Engine.flight?_updateFlight _ _ _ fun f => f.document_lookUp _, hpath]
    simp
  | ask q =>
    simp only [perform, updateEngine, Session.updateEngine, Session.engineAt_of_alone h.alone,
      Session.setEngine_of_alone h.alone]
    refine hfree _ rfl rfl fun path hpath => ?_
    show (r.session.engine.updateFlight c.path _).flight? path = none
    rw [Engine.flight?_updateFlight _ _ _ fun f => f.document_receive _, hpath]
    simp
  | deliver =>
    simp only [perform, deliver, Session.engineAt_of_alone h.alone, Engine.settle]
    cases hf : r.session.engine.flight? c.path with
    | none => exact h
    | some f =>
      cases hn : f.next == .deliver with
      | false => simpa [hn] using h
      | true =>
        simp only [hn, if_true, Session.setEngine_of_alone h.alone]
        refine hfree _ rfl rfl fun path hpath => ?_
        show (r.session.engine.dropFlight f.document.path).flight? path = none
        rw [Engine.flight?_dropFlight, hpath]
        simp

/-- What becomes of the gate touches no engine. -/
theorem undisturbed_gate {r : Rota} (h : Undisturbed [] s r.session) (g : Gate CycleId) :
    Undisturbed [] s { r.session with gate := some g } :=
  ⟨h.alone, h.settings, h.timers, h.free⟩

theorem undisturbed_enter {r : Rota} (h : Undisturbed [] s r.session) (c : CycleId) (step : Step) :
    Undisturbed [] s (r.enter c step).2.session := by
  unfold enter enterGate enterLock
  split
  · exact h
  · split
    · split
      · exact h
      · exact undisturbed_gate h _
    · exact h

theorem session_leave (r : Rota) (engine : Nat) (step : Step) :
    (r.leave engine step).session = r.session := by
  unfold leave letIn
  split <;> rfl

theorem undisturbed_turn {r : Rota} (h : Undisturbed [] s r.session) (c : CycleId)
    (count steps : Nat) : Undisturbed [] s (turn c count steps r).session := by
  induction count generalizing steps r with
  | zero => exact h
  | succ count ih =>
    rw [turn]
    split
    · exact h
    · next step _ =>
      split
      · exact ih (undisturbed_perform h c step) steps
      · have henter := undisturbed_enter h c step
        split
        · next r' heq =>
          rw [heq] at henter
          exact henter
        · next r' heq =>
          rw [heq] at henter
          split
          · exact henter
          · refine ih ?_ (steps - 1)
            rw [session_leave]
            exact undisturbed_perform henter c step

theorem undisturbed_nextTurn {r : Rota} (h : Undisturbed [] s r.session) :
    Undisturbed [] s r.nextTurn.session := by
  unfold nextTurn
  split
  · exact h
  · exact h
  · next c steps ready _ => exact undisturbed_turn (r := { r with ready := ready }) h c _ steps

theorem undisturbed_run {r : Rota} (h : Undisturbed [] s r.session) (count pause : Nat) :
    Undisturbed [] s (r.run count pause).session := by
  induction count generalizing pause r with
  | zero => exact h
  | succ count ih =>
    rw [run]
    split
    · exact ih (undisturbed_nextTurn (r := r.wake) h) _
    · exact ih (undisturbed_nextTurn h) _

end Rota

namespace Session

theorem undisturbed_takeTurns {s : Session} (h : s.earlier = []) (ready : List Turn)
    (admitted : List CycleId) : Undisturbed [] s (s.takeTurns ready admitted).2 :=
  Rota.undisturbed_run (r := .ofTurns s ready admitted) (.refl h) _ _

/-! ### What is started -/

/-- A request of a path leaves the others alone. -/
theorem free_start {e : Engine} {d : Document} {trigger : Trigger} {now : Instant} {path : String}
    (hne : path ≠ d.path) (h : e.flight? path = none) :
    (e.start d trigger now).2.flight? path = none := by
  by_cases hstart : (e.start d trigger now).1 = none
  · rw [Engine.flight?_of_admitted hstart, if_neg hne, h]
  · rw [Engine.flight?_of_refused hstart, h]

/-- Starting a cycle touches settings and timers no more than its turns do. -/
theorem undisturbed_start {s : Session} (h : s.earlier = []) (d : Document) (trigger : Trigger)
    (now : Instant) :
    Undisturbed [d.path] s { s with engine := (s.engine.start d trigger now).2 } := by
  obtain ⟨cooldown, flights, heq⟩ := s.engine.start_eq d trigger now
  refine ⟨h, by rw [heq], by rw [heq], fun path hpath hfree => ?_⟩
  exact free_start (by simpa using hpath) hfree

theorem undisturbed_request {s : Session} (h : s.earlier = []) (d : Document) (trigger : Trigger)
    (now : Instant) : Undisturbed [d.path] s (s.request d trigger now).2 := by
  have hstart := undisturbed_start h d trigger now
  unfold request
  rcases hs : s.engine.start d trigger now with ⟨_ | reason, e⟩
  · rw [hs] at hstart
    exact hstart.trans (undisturbed_takeTurns (s := { s with engine := e }) h _ _)
  · rw [hs] at hstart
    exact hstart

theorem undisturbed_beginCycle {s : Session} (h : s.earlier = []) (due : Due) :
    Undisturbed [due.2.action.document.path] s (s.beginCycle due).2 := by
  simp only [beginCycle, engineAt_of_alone h, setEngine_of_alone h]
  exact undisturbed_start h _ _ _

/-- The path of a document that waited. -/
def Due.path (due : Due) : String := due.2.action.document.path

theorem undisturbed_launch {s : Session} (h : s.earlier = []) (dues : List Due) :
    Undisturbed (dues.map Due.path) s (s.launch dues).2 := by
  induction dues generalizing s with
  | nil => exact .refl h
  | cons due rest ih =>
    have hbegun := undisturbed_beginCycle h due
    exact hbegun.trans (ih hbegun.alone)

theorem undisturbed_runTogether {s : Session} (h : s.earlier = []) (dues : List Due) :
    Undisturbed (dues.map Due.path) s (s.runTogether dues) := by
  have hlaunched := undisturbed_launch h dues
  have hturns := undisturbed_takeTurns hlaunched.alone (s.launch dues).1 []
  have hall := hlaunched.trans hturns
  rwa [List.append_nil] at hall

theorem undisturbed_groups {s : Session} (h : s.earlier = []) (groups : List (List Due)) :
    Undisturbed (groups.flatten.map Due.path) s (groups.foldl runTogether s) := by
  induction groups generalizing s with
  | nil => exact .refl h
  | cons dues groups ih =>
    have hfirst := undisturbed_runTogether h dues
    rw [List.flatten_cons, List.map_append]
    exact hfirst.trans (ih hfirst.alone)

/-! ### While time passes -/

/-- With one engine, what is due is what its timers say. -/
theorem advance_of_alone {s : Session} (h : s.earlier = []) (ms : Nat) :
    ((s.advance ms).1.map Prod.snd).Perm (s.engine.timers.advance ms).1 ∧
      (s.advance ms).2 =
        { s with engine := { s.engine with timers := (s.engine.timers.advance ms).2 } } := by
  constructor
  · have hdues : (s.engines.mapIdx fun n e => (e.advance ms).1.map fun w => (n, w)).flatten =
        (s.engine.timers.advance ms).1.map fun w => (0, w) := by
      simp [engines, h, Engine.advance]
    have hperm := (List.mergeSort_perm ((s.engine.timers.advance ms).1.map fun w => (0, w))
      fun a b => a.2.due ≤ b.2.due).map Prod.snd
    rw [List.map_map, show Prod.snd ∘ (fun w => (0, w)) = (id : Waiting Awaiting → _) from rfl,
      List.map_id] at hperm
    rw [advance, hdues]
    exact hperm
  · simp [advance, h, Engine.advance]

theorem undisturbed_sleep {s : Session} (h : s.earlier = []) (ms : Nat) :
    Undisturbed ((s.advance ms).1.map Due.path) (s.advance ms).2 (s.sleep ms) := by
  have halone : (s.advance ms).2.earlier = [] := by simp [advance, h]
  have hall := undisturbed_groups halone
    ((s.advance ms).1.splitBy fun a b => a.2.due == b.2.due)
  rwa [List.flatten_splitBy] at hall

end Session

end CodeCoach
