import CodeCoach.Session.Basic
import CodeCoach.Table

/-!
# Turns

The cycles of a session go on by turns.  A turn ends with the cycle, before a step to which the
cycle is not let in, or when so many steps are done; the cycle then rests until the others have had
their turns.

* `Lock`, what one cycle at a time may use;
* `Turn`, a turn to take, and `Rota`, the turns to come and the cycles that wait for theirs;
* `Rota.enter`, `Rota.perform`, `Rota.leave`, the parts of a step;
* `Rota.turn`, one turn, and `Rota.run`, the turns of all;
* `Session.takeTurns`, which runs cycles until each has ended or waits for a permit.

A lookup needs what the engine has learned, a delivery its interventions, and a question a permit if
there is a gate.  Each of these is handed on in the order in which the cycles asked for it.  A cycle
whose steps are used up still asks for what it needs next, and holds it while it rests.  A question
costs no step where there is no gate.
-/

namespace CodeCoach

/-- What one cycle at a time may use. -/
inductive Lock
  /-- What an engine has learned. -/
  | learning (engine : Nat)
  /-- The interventions of an engine. -/
  | interventions (engine : Nat)
  deriving DecidableEq, Repr

/-- The lock that a cycle needs for a step. -/
def Step.lock? (engine : Nat) : Step → Option Lock
  | .lookUp _ => some (.learning engine)
  | .ask _ => none
  | .deliver => some (.interventions engine)

/-- A turn to take. -/
inductive Turn
  /-- The turn of a cycle that did not start. -/
  | refused
  /-- The turn of a cycle that goes on, with the number of its steps. -/
  | goOn (cycle : CycleId) (steps : Nat)
  deriving DecidableEq, Repr

/-- The cycles of a session that go on. -/
structure Rota where
  session : Session
  /-- The turns to take, the next in front. -/
  ready : List Turn
  /-- Those who have used up their steps, the last in front. -/
  resting : List CycleId
  /-- Those who have been let in to their next step. -/
  admitted : List CycleId
  /-- The locks that have been used. -/
  locks : Table Lock (Gate CycleId)
  /-- Those who have delivered, with what they delivered. -/
  ended : List (CycleId × List Intervention)

/-- The steps of a turn. -/
def turnLength : Nat := 128

/-- The steps of the first turn of a cycle, of which the look at the settings is one. -/
def firstTurn : Nat := turnLength - 1

/-- The steps of the first turn of a cycle that waited for its time, which is another. -/
def timedTurn : Nat := firstTurn - 1

/-- The number of turns after which those who rest come back at the latest. -/
def longestRest : Nat := 61

namespace Rota

/-- A rota of turns, where some cycles have been let in to their first step. -/
def ofTurns (s : Session) (ready : List Turn) (admitted : List CycleId) : Rota where
  session := s
  ready := ready
  resting := []
  admitted := admitted
  locks := .empty
  ended := []

/-- What a cycle does next. -/
def step? (r : Rota) (c : CycleId) : Option Step := (r.session.engineAt c.engine).step? c.path

/-- A bound on the number of steps that a cycle has left. -/
def stepsLeft (r : Rota) (c : CycleId) : Nat := (r.session.engineAt c.engine).stepsLeft c.path

/-! ### Steps -/

/-- Whether everybody is let in to a step. -/
def isOpen (r : Rota) (engine : Nat) (step : Step) : Bool :=
  (step.lock? engine).isNone && r.session.gate.isNone

/-- Lets cycles in. Their turns come after the others. -/
def letIn (r : Rota) (cs : List CycleId) : Rota :=
  { r with
    ready := r.ready ++ cs.map fun c => .goOn c turnLength
    admitted := r.admitted ++ cs }

/-- Asks for a lock. -/
def enterLock (r : Rota) (c : CycleId) (lock : Lock) : Bool × Rota :=
  let (admitted, g) := ((r.locks.get? lock).getD .lock).arrive c
  (admitted, { r with locks := r.locks.set lock g })

/-- Asks for a permit. -/
def enterGate (r : Rota) (c : CycleId) : Bool × Rota :=
  match r.session.gate with
  | none => (true, r)
  | some g =>
    let (admitted, g) := g.arrive c
    (admitted, { r with session := { r.session with gate := some g } })

/-- Asks to be let in to a step, unless that is so. -/
def enter (r : Rota) (c : CycleId) (step : Step) : Bool × Rota :=
  if r.admitted.contains c then (true, { r with admitted := r.admitted.erase c })
  else
    match step.lock? c.engine with
    | none => r.enterGate c
    | some lock => r.enterLock c lock

/-- Gives a lock back. -/
def leave (r : Rota) (engine : Nat) (step : Step) : Rota :=
  match step.lock? engine with
  | none => r
  | some lock =>
    let (cs, g) := ((r.locks.get? lock).getD .lock).release 1
    { r with locks := r.locks.set lock g }.letIn cs

/-- Changes the engine of a cycle. -/
def updateEngine (r : Rota) (n : Nat) (change : Engine → Engine) : Rota :=
  { r with session := r.session.updateEngine n change }

/-- Ends a cycle. -/
def deliver (r : Rota) (c : CycleId) : Rota :=
  match (r.session.engineAt c.engine).settle c.path with
  | (none, _) => r
  | (some list, e) =>
    { r with session := r.session.setEngine c.engine e, ended := r.ended ++ [(c, list)] }

/-- Does a step of a cycle. -/
def perform (r : Rota) (c : CycleId) : Step → Rota
  | .lookUp _ => r.updateEngine c.engine fun e => e.lookUp c.path
  | .ask q => r.updateEngine c.engine fun e => e.answer c.path (r.session.enhancer q)
  | .deliver => r.deliver c

/-- Lets a cycle rest, which holds what it needs next. -/
def rest (r : Rota) (c : CycleId) : Rota :=
  { r with resting := c :: r.resting, admitted := c :: r.admitted }

/-! ### Turns -/

/-- The turn of a cycle; `count` is at least the number of steps that the cycle has left. -/
def turn (c : CycleId) : Nat → Nat → Rota → Rota
  | 0, _, r => r
  | count + 1, steps, r =>
    match r.step? c with
    | none => r
    | some step =>
      if r.isOpen c.engine step then turn c count steps (r.perform c step)
      else
        match r.enter c step with
        | (false, r) => r
        | (true, r) =>
          if steps == 0 then r.rest c
          else turn c count (steps - 1) ((r.perform c step).leave c.engine step)

/-- Those who rest come back, the last to rest first. -/
def wake (r : Rota) : Rota :=
  { r with ready := r.ready ++ r.resting.map fun c => .goOn c turnLength, resting := [] }

/-- The first turn in the queue. -/
def nextTurn (r : Rota) : Rota :=
  match r.ready with
  | [] => r
  | .refused :: ready => { r with ready := ready }
  | .goOn c steps :: ready => turn c (r.stepsLeft c) steps { r with ready := ready }

/-- Turns until nobody is ready; those who rest come back after `pause` turns, or before if nobody
else is ready. There are at most `count` turns. -/
def run : Nat → Nat → Rota → Rota
  | 0, _, r => r
  | count + 1, pause, r =>
    if r.ready.isEmpty || pause == 0 then run count (longestRest - 1) r.wake.nextTurn
    else run count (pause - 1) r.nextTurn

/-- A bound on the number of turns that come of one. But for the first turn of a cycle, each brings
it a step on. -/
def turnsOf (r : Rota) : Turn → Nat
  | .refused => 1
  | .goOn c _ => r.stepsLeft c + 1

/-- A bound on the turns until nobody is ready. -/
def turnsLeft (r : Rota) : Nat := r.ready.foldl (fun n t => n + r.turnsOf t) 0

end Rota

/-- Takes turns until each cycle has ended or waits for a permit. Those in `admitted` have been let in
to their first step. Returns the cycles that end, with what they deliver. -/
def Session.takeTurns (s : Session) (ready : List Turn) (admitted : List CycleId) :
    List (CycleId × List Intervention) × Session :=
  let r := Rota.ofTurns s ready admitted
  let r := r.run r.turnsLeft longestRest
  (r.ended, r.session)

end CodeCoach
