import CodeCoach.Session.Turn

/-!
# What happens in a session

* `Session.request`, a whole cycle, as far as the enhancer answers;
* `Session.save`, `Session.review`, `Session.sleep`, which start cycles;
* `Session.release`, which gives permits and goes on with the cycles that get one.

All engines have one clock and one gate.
-/

namespace CodeCoach

namespace Session

/-! ### Cycles -/

/-- Runs a cycle. No outcome means that it waits for permits. -/
def request (s : Session) (d : Document) (trigger : Trigger) (now : Instant) :
    Option Outcome × Session :=
  let (refusal, engine) := s.engine.start d trigger now
  let s := { s with engine := engine }
  match refusal with
  | some reason => (some (.refused reason), s)
  | none =>
    let (ended, s) := s.takeTurns [.goOn (s.cycle d.path) firstTurn] []
    (ended.head?.map fun e => .delivered e.2, s)

/-- Runs a cycle for a document that was saved. It does not wait for its cycle any longer. -/
def save (s : Session) (d : Document) : Option Outcome × Session :=
  { s with engine := s.engine.unschedule d.path }.request d .save s.engine.clock

/-- Runs a cycle on demand. -/
def review (s : Session) (d : Document) : Option Outcome × Session :=
  s.request d .onDemand s.engine.clock

/-! ### Time -/

/-- A document that waits, and the number of the engine that it waits for. -/
abbrev Due := Nat × Waiting Awaiting

/-- Moves the clock on, and returns the documents whose cycles begin on the way, the earliest
first. -/
def advance (s : Session) (ms : Nat) : List Due × Session :=
  let due := (s.engines.mapIdx fun n e => (e.advance ms).1.map fun w => (n, w)).flatten
  (due.mergeSort fun a b => a.2.due ≤ b.2.due,
    { s with
      engine := (s.engine.advance ms).2
      earlier := s.earlier.map fun e => (e.advance ms).2 })

/-- Starts a cycle that waited. Returns its first turn. -/
def beginCycle (s : Session) (due : Due) : Turn × Session :=
  let (n, w) := due
  let e := s.engineAt n
  let (refusal, e) := e.start w.action.document w.action.trigger e.clock
  (if refusal.isNone then .goOn ⟨n, w.action.document.path⟩ timedTurn else .refused,
    s.setEngine n e)

/-- Starts cycles in order. Returns their first turns. -/
def launch (s : Session) : List Due → List Turn × Session
  | [] => ([], s)
  | due :: rest =>
    let (turn, s) := s.beginCycle due
    let (turns, s) := launch s rest
    (turn :: turns, s)

/-- Runs cycles that begin at one time. -/
def runTogether (s : Session) (due : List Due) : Session :=
  let (turns, s) := s.launch due
  (s.takeTurns turns []).2

/-- Lets time pass, and runs the cycles that begin. -/
def sleep (s : Session) (ms : Nat) : Session :=
  let (due, s) := s.advance ms
  (due.splitBy fun a b => a.2.due == b.2.due).foldl runTogether s

/-! ### Permits -/

/-- Gives permits, and goes on with the cycles that get one. Returns those that end, with what they
deliver. -/
def release (s : Session) (n : Nat) : List (CycleId × List Intervention) × Session :=
  match s.gate with
  | none => ([], s)
  | some g =>
    let (cs, g) := g.release n
    { s with gate := some g }.takeTurns (cs.map fun c => .goOn c turnLength) cs

end Session

end CodeCoach
