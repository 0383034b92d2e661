import CodeCoach.Engine
import CodeCoach.Gate

/-!
# Sessions: the engines and what stands before the enhancer

A session is an engine together with the enhancer that answers its questions, at once or one permit
each.  An engine that is replaced has still to end the cycles it began, and to begin those that
wait; it keeps its settings.

* `Session`, and `Session.ofEngine`, a session that begins;
* `CycleId`, by which the cycles of all engines are told apart;
* `Session.engineAt`, `Session.setEngine`, the engines by their numbers;
* `Session.replaceEngine`, `Session.restart`, which put a new engine to work;
* `Session.abort`, which drops a cycle.
-/

namespace CodeCoach

/-- A cycle: the number of its engine, and the path of its document. -/
structure CycleId where
  engine : Nat
  path : String
  deriving DecidableEq, Repr

/-- The engines and their enhancer. -/
structure Session where
  /-- The engine at work. -/
  engine : Engine
  /-- The engines that were at work before, the first in front. -/
  earlier : List Engine
  enhancer : Enhancer
  /-- The gate before the enhancer, if there is one. -/
  gate : Option (Gate CycleId)

namespace Session

/-- A session that begins. -/
def ofEngine (engine : Engine) (enhancer : Enhancer) (gate : Option (Gate CycleId)) : Session :=
  ⟨engine, [], enhancer, gate⟩

/-! ### The engines -/

/-- The engines, by their numbers. -/
def engines (s : Session) : List Engine := s.earlier ++ [s.engine]

/-- The cycle of a path of the engine at work. -/
def cycle (s : Session) (path : String) : CycleId := ⟨s.earlier.length, path⟩

/-- The engine with a number. -/
def engineAt (s : Session) (n : Nat) : Engine := s.earlier.getD n s.engine

/-- Puts an engine in the place of the one with its number. -/
def setEngine (s : Session) (n : Nat) (e : Engine) : Session :=
  if n < s.earlier.length then { s with earlier := s.earlier.set n e } else { s with engine := e }

/-- Changes the engine with a number. -/
def updateEngine (s : Session) (n : Nat) (change : Engine → Engine) : Session :=
  s.setEngine n (change (s.engineAt n))

@[simp] theorem engineAt_cycle (s : Session) (path : String) :
    s.engineAt (s.cycle path).engine = s.engine := by
  simp [engineAt, cycle]

theorem engineAt_setEngine (s : Session) (n : Nat) (e : Engine) :
    (s.setEngine n e).engineAt n = e := by
  unfold setEngine engineAt
  split
  · next h => simp [h]
  · next h => simp [h]

/-- Puts a new engine to work. It goes by the clock of the one before. -/
def replaceEngine (s : Session) (e : Engine) : Session :=
  { s with
    engine := { e with timers := { e.timers with now := s.engine.timers.now } }
    earlier := s.engines }

/-- Puts an engine to work that has the same settings, and has learned what the storage holds. -/
def restart (s : Session) (ids : Nat → String) : Session :=
  s.replaceEngine
    (Engine.fresh s.engine.settings (.load s.engine.store.storage) ids s.engine.clock)

/-- Drops a cycle. -/
def abort (s : Session) (c : CycleId) : Session :=
  { s.updateEngine c.engine fun e => e.abort c.path with gate := s.gate.map fun g => g.leave c }

end Session

end CodeCoach
