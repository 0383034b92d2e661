import CodeCoach.Instant
import CodeCoach.Issue

/-!
# Feedback

* `Action`, what a developer did with an intervention, and `Action.reaction`, what that says about
  its pattern;
* `Feedback`, the record of one action;
* `Stats`, the number of actions of each sort in a history.
-/

namespace CodeCoach

/-- What a developer did with an intervention. -/
inductive Action
  | accepted
  | dismissed
  /-- A changed form of the suggestion was put into practice. -/
  | modified
  deriving DecidableEq, Repr

/-- How a developer feels about a pattern. -/
inductive Reaction
  | preferred
  | rejected
  | neutral
  deriving DecidableEq, Repr

/-- One action on one intervention. -/
structure Feedback where
  interventionId : String
  action : Action
  note : Option String
  time : Instant
  kind : Kind
  patternKey : String
  deriving DecidableEq, Repr

namespace Action

def all : List Action := [accepted, dismissed, modified]

def name : Action → String
  | accepted => "accepted"
  | dismissed => "dismissed"
  | modified => "modified"

def ofName? (s : String) : Option Action := all.find? (·.name == s)

/-- What an action says about the pattern. -/
def reaction : Action → Reaction
  | accepted => .preferred
  | dismissed => .rejected
  | modified => .neutral

theorem ofName?_name (a : Action) : ofName? a.name = some a := by cases a <;> rfl

end Action

namespace Reaction

def all : List Reaction := [preferred, rejected, neutral]

def name : Reaction → String
  | preferred => "preferred"
  | rejected => "rejected"
  | neutral => "neutral"

def ofName? (s : String) : Option Reaction := all.find? (·.name == s)

theorem ofName?_name (r : Reaction) : ofName? r.name = some r := by cases r <;> rfl

end Reaction

/-! ### Statistics -/

/-- Counts of a history. -/
structure Stats where
  total : Nat
  accepted : Nat
  dismissed : Nat
  modified : Nat
  /-- The share of accepted actions. -/
  acceptanceRate : Float

namespace Stats

/-- How many of the actions are `action`. -/
def count (action : Action) (history : List Feedback) : Nat :=
  history.countP fun f => f.action == action

/-- A share of a whole, and zero where there is nothing. -/
def rate (part whole : Nat) : Float :=
  if 0 < whole then Float.ofNat part / Float.ofNat whole else 0

def ofHistory (history : List Feedback) : Stats where
  total := history.length
  accepted := count .accepted history
  dismissed := count .dismissed history
  modified := count .modified history
  acceptanceRate := rate (count .accepted history) history.length

/-- Every action is counted once. -/
theorem count_add_count (history : List Feedback) :
    count .accepted history + count .dismissed history + count .modified history =
      history.length := by
  induction history with
  | nil => rfl
  | cons f rest ih =>
    obtain ⟨_, action, _, _, _, _⟩ := f
    cases action <;> simp [count] at ih ⊢ <;> omega

end Stats

end CodeCoach
