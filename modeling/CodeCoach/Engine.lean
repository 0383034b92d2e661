import CodeCoach.Cooldown
import CodeCoach.Cycle
import CodeCoach.Debounce
import CodeCoach.FeedbackStore

/-!
# The engine

The engine runs cycles for documents and takes in what developers do with the interventions.

* `Engine`, its state: settings, cooldown, feedback, interventions, flights, timers, and the events
  told so far;
* `Engine.start`, which starts a cycle, `Engine.lookUp` and `Engine.answer`, which go on with one,
  `Engine.settle`, which ends it, and `Engine.abort`, which drops it;
* `Engine.act`, an action on an intervention, and `Engine.reset`;
* `Engine.schedule` and `Engine.advance`, for cycles that wait until a document is left alone.

A document is known by its path, and no path has two flights.  Interventions, their creation events
and the outcome of a cycle come about in one step, when the last answer is there.  The settings of a
cycle are those that were active when it started, while each of its lookups goes by what has been
learned by then: an action or a reset that comes between two lookups counts for the second one.
-/

namespace CodeCoach

/-- A document that waits for its cycle. -/
structure Awaiting where
  document : Document
  trigger : Trigger
  deriving DecidableEq, Repr

/-- The state of the coach. -/
structure Engine where
  settings : Settings
  cooldown : Cooldown
  store : FeedbackStore
  interventions : List Intervention
  flights : List Flight
  timers : Debouncer Awaiting
  /-- The identifiers of interventions, and the number of those in use. -/
  ids : Nat → String
  issued : Nat
  /-- The time for new interventions and feedback. -/
  clock : Instant
  /-- Everything that was told, in order. -/
  events : List Event

namespace Engine

/-- An engine that has done nothing yet. -/
def fresh (settings : Settings) (store : FeedbackStore) (ids : Nat → String) (clock : Instant) :
    Engine where
  settings := settings
  cooldown := Cooldown.ofSeconds Cooldown.defaultSeconds
  store := store
  interventions := []
  flights := []
  timers := .empty
  ids := ids
  issued := 0
  clock := clock
  events := []

/-- Tells events. -/
def publish (e : Engine) (events : List Event) : Engine := { e with events := e.events ++ events }

/-- The most events that are kept for a listener who is behind. -/
def backlog : Nat := 1024

/-- The events for a listener who has heard the first `heard` ones; older ones are lost to him. -/
def eventsSince (e : Engine) (heard : Nat) : List Event :=
  (e.events.drop heard).drop ((e.events.length - heard) - backlog)

/-- The flight of a path. -/
def flight? (e : Engine) (path : String) : Option Flight :=
  e.flights.find? fun f => f.document.path == path

/-- Where the cycle of a path stands, as it is seen between two steps. The search for issues is part
of the first step and is never seen. A cycle that has only to deliver, and waits to be let in to the
interventions, is still shown as responding, though it may say of itself that it delivers. -/
def phase (e : Engine) (path : String) : Phase :=
  match (e.flight? path).map Flight.stage with
  | none => .idle
  | some (.filtering ..) => .filtering
  | some (.responding ..) => .responding

/-! ### Cycles -/

/-- Sets the window of the cooldown and lets a document through, or refuses it. -/
def passCooldown (e : Engine) (path : String) (now : Instant) : Bool × Engine :=
  let (admitted, cooldown) :=
    (e.cooldown.setWindow e.settings.cooldownSeconds).tryBegin path now
  (admitted, { e with cooldown := cooldown })

/-- The flight of a new cycle. -/
def launch (e : Engine) (d : Document) (trigger : Trigger) : Flight where
  document := d
  settings := e.settings
  stage := .ofIssues e.settings trigger (Review.ofDocument d)

/-- Starts a cycle, or gives the reason why it does not start. -/
def start (e : Engine) (d : Document) (trigger : Trigger) (now : Instant) :
    Option Refusal × Engine :=
  if trigger != .onDemand && !e.settings.proactive then (some .disabled, e)
  else if (e.flight? d.path).isSome then (some .busy, e)
  else
    match e.passCooldown d.path now with
    | (false, e) => (some .coolingDown, e)
    | (true, e) => (none, { e with flights := e.flights ++ [e.launch d trigger] })

/-- Drops the flight of a path. -/
def dropFlight (e : Engine) (path : String) : Engine :=
  { e with flights := e.flights.filter fun f => f.document.path != path }

/-- Delivers what is ready in a flight, and ends it. -/
def deliver (e : Engine) (f : Flight) : List Intervention × Engine :=
  let list := f.interventions e.ids e.issued e.clock
  (list,
    publish
      { e.dropFlight f.document.path with
        interventions := e.interventions ++ list
        issued := e.issued + list.length }
      (list.map .created))

/-- What the cycle of a path does next. -/
def step? (e : Engine) (path : String) : Option Step := (e.flight? path).map Flight.next

/-- Delivers the flight of a path, if nothing is left to look up or to ask. -/
def settle (e : Engine) (path : String) : Option (List Intervention) × Engine :=
  match e.flight? path with
  | none => (none, e)
  | some f =>
    if f.next == .deliver then
      let (list, e) := e.deliver f
      (some list, e)
    else (none, e)

/-- Changes the flight of a path. -/
def updateFlight (e : Engine) (path : String) (change : Flight → Flight) : Engine :=
  { e with
    flights := e.flights.map fun f => if f.document.path == path then change f else f }

/-- A bound on the number of steps that the cycle of a path has left. -/
def stepsLeft (e : Engine) (path : String) : Nat :=
  ((e.flight? path).map Flight.stepsLeft).getD 0

/-- Looks up one issue for the cycle of a path, in what has been learned. -/
def lookUp (e : Engine) (path : String) : Engine :=
  e.updateFlight path fun f => f.lookUp e.store.learning

/-- What is told about an answer: a failure is a warning. -/
def answerEvents : Answer → List Event
  | .ok _ => []
  | .error cause => [.warning ("AI enhancement unavailable: " ++ cause.message)]

/-- Answers the next question of the cycle of a path. -/
def answer (e : Engine) (path : String) (a : Answer) : Engine :=
  (e.updateFlight path fun f => f.receive a).publish (answerEvents a)

/-- Drops the cycle of a path. -/
def abort (e : Engine) (path : String) : Engine := e.dropFlight path

/-! ### Actions -/

/-- Marks the first intervention with an identifier, if it is unresolved. Gives it together with
all interventions. -/
def markFirst (id : String) (action : Action) :
    List Intervention → Option (Intervention × List Intervention)
  | [] => none
  | i :: rest =>
    if i.id == id then (i.resolve? action).map fun j => (j, j :: rest)
    else (markFirst id action rest).map fun (j, rest) => (j, i :: rest)

/-- A warning where feedback could not be kept. -/
def savingEvents (text : String) : Except StorageError Unit → List Event
  | .ok () => []
  | .error e => [.warning (text ++ e.message)]

/-- Takes in an action on an intervention. Says whether there was an unresolved one. -/
def act (e : Engine) (id : String) (action : Action) (note : Option String) : Bool × Engine :=
  match markFirst id action e.interventions with
  | none => (false, e)
  | some (i, interventions) =>
    let (result, store) := e.store.record (i.feedback action note e.clock)
    (true,
      publish { e with interventions := interventions, store := store }
        (savingEvents "feedback could not be saved and will be lost on restart: " result ++
          [.resolved i.id action]))

/-- The interventions that were not dismissed. -/
def active (e : Engine) : List Intervention := e.interventions.filter Intervention.isActive

/-- The intervention with an identifier. -/
def intervention? (e : Engine) (id : String) : Option Intervention :=
  e.interventions.find? fun i => i.id == id

/-- Forgets the interventions, the feedback and the documents that wait. The cooldown and the
flights go on. -/
def reset (e : Engine) : Engine :=
  let (result, store) := e.store.reset
  publish { e with timers := e.timers.cancelAll, interventions := [], store := store }
    (savingEvents "feedback reset could not be saved: " result)

/-! ### Timers -/

/-- Lets a document wait for its cycle until it is left alone, in place of an older state of it. -/
def schedule (e : Engine) (d : Document) (trigger : Trigger) : Engine :=
  if e.settings.proactive then
    { e with timers := e.timers.schedule d.path e.settings.debounceMillis ⟨d, trigger⟩ }
  else e

/-- A document does not wait any longer. -/
def unschedule (e : Engine) (path : String) : Engine :=
  { e with timers := (e.timers.cancel path).2 }

/-- The number of documents that wait. -/
def pending (e : Engine) : Nat := e.timers.pending

/-- Moves the clock of the timers on, and returns the documents whose cycles begin. -/
def advance (e : Engine) (ms : Nat) : List (Waiting Awaiting) × Engine :=
  let (due, timers) := e.timers.advance ms
  (due, { e with timers := timers })

end Engine

end CodeCoach
