import CodeCoach.Feedback
import CodeCoach.Personality.Voice

/-!
# Interventions

* `Intervention`, an issue put into words for a developer, who may act on it once;
* `Intervention.resolve?`, the intervention after an action, where none came before;
* `Event`, what the coach tells those who listen.
-/

namespace CodeCoach

/-- An issue that was brought up. -/
structure Intervention where
  id : String
  context : Context
  response : Response
  createdAt : Instant
  dismissed : Option Bool
  accepted : Option Bool
  deriving DecidableEq, Repr

namespace Intervention

/-- Whether the intervention has not been dismissed. -/
def isActive (i : Intervention) : Bool := i.dismissed.isNone

/-- Whether there was an action on the intervention. -/
def isResolved (i : Intervention) : Bool := i.dismissed.isSome || i.accepted.isSome

/-- A new intervention in the voice of a personality. -/
def create (id : String) (voice : Personality) (context : Context) (now : Instant) :
    Intervention where
  id := id
  context := context
  response := voice.respond context
  createdAt := now
  dismissed := none
  accepted := none

/-- Marks an action. A modification counts as an acceptance. -/
def mark (i : Intervention) : Action → Intervention
  | .dismissed => { i with dismissed := some true }
  | .accepted => { i with accepted := some true }
  | .modified => { i with accepted := some true }

/-- The intervention after an action, unless there was one before. -/
def resolve? (i : Intervention) (action : Action) : Option Intervention :=
  if i.isResolved then none else some (i.mark action)

/-- The feedback that an action on an intervention gives. -/
def feedback (i : Intervention) (action : Action) (note : Option String) (now : Instant) :
    Feedback where
  interventionId := i.id
  action := action
  note := note
  time := now
  kind := i.context.kind
  patternKey := i.context.patternKey

@[simp] theorem isResolved_create (id : String) (voice : Personality) (context : Context)
    (now : Instant) : (create id voice context now).isResolved = false := rfl

@[simp] theorem isResolved_mark (i : Intervention) (action : Action) :
    (i.mark action).isResolved = true := by
  cases action <;> simp [mark, isResolved]

@[simp] theorem id_mark (i : Intervention) (action : Action) : (i.mark action).id = i.id := by
  cases action <;> rfl

@[simp] theorem context_mark (i : Intervention) (action : Action) :
    (i.mark action).context = i.context := by
  cases action <;> rfl

theorem resolve?_eq_some_iff {i j : Intervention} {action : Action} :
    i.resolve? action = some j ↔ i.isResolved = false ∧ j = i.mark action := by
  cases h : i.isResolved <;> simp [resolve?, h, eq_comm]

end Intervention

/-- Something worth telling. -/
inductive Event
  | created (intervention : Intervention)
  | resolved (id : String) (action : Action)
  /-- A trouble that does not stop the coach. -/
  | warning (message : String)
  deriving DecidableEq, Repr

/-- The name of the sort of an event. -/
def Event.name : Event → String
  | created _ => "intervention_created"
  | resolved _ _ => "intervention_resolved"
  | warning _ => "warning"

end CodeCoach
