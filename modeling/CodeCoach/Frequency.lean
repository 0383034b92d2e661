import CodeCoach.Issue
import CodeCoach.Text.Blank
import CodeCoach.Text.Case

/-!
# How often the coach speaks up

* `Frequency`, which issues may be brought up at all;
* `truncateBySeverity`, the most severe of many issues, in the order of the review among equals.
-/

namespace CodeCoach

/-- How chatty the coach is. -/
inductive Frequency
  /-- Critical issues only. -/
  | minimal
  /-- No information, unless it is about security. -/
  | balanced
  /-- Everything. -/
  | unrestricted
  deriving DecidableEq, Repr

namespace Frequency

def all : List Frequency := [minimal, balanced, unrestricted]

def name : Frequency → String
  | minimal => "minimal"
  | balanced => "balanced"
  | unrestricted => "unrestricted"

/-- The frequency with exactly this name. -/
def ofName? (s : String) : Option Frequency := all.find? (·.name == s)

/-- The frequency of a name as a user may write it: blanks around it and ASCII case do not
matter. -/
def parse? (s : String) : Option Frequency := ofName? (Text.lowerAscii (Text.trimString s))

/-- Whether an issue may be brought up. -/
def allows (f : Frequency) (i : Issue) : Bool :=
  match f with
  | minimal => i.severity == .critical
  | balanced => i.severity != .info || i.kind == .security
  | unrestricted => true

theorem ofName?_name (f : Frequency) : ofName? f.name = some f := by cases f <;> rfl

end Frequency

/-- The issues from the most severe to the mildest; equally severe ones keep their order. -/
def bySeverity (issues : List Issue) : List Issue :=
  issues.mergeSort fun a b => b.severity.rank ≤ a.severity.rank

/-- The `max` most severe issues, and among equally severe ones the first. -/
def truncateBySeverity (issues : List Issue) (max : Nat) : List Issue :=
  (bySeverity issues).take max

theorem length_truncateBySeverity (issues : List Issue) (max : Nat) :
    (truncateBySeverity issues max).length = min max issues.length := by
  rw [truncateBySeverity, List.length_take, bySeverity, List.length_mergeSort]

end CodeCoach
