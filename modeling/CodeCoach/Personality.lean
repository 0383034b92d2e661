import CodeCoach.Issue
import CodeCoach.Text.Blank
import CodeCoach.Text.Case

/-!
# Personalities

* `Personality`, the six voices in which issues are put into words;
* `Personality.id`, the identifier of the configuration, and `Personality.ofId?`, which reads one
  without regard to the blanks around it and to ASCII case;
* `Personality.ofIdOrDefault`, for which every other identifier is supportive;
* `Tone`, `Response`.
-/

namespace CodeCoach

/-- A voice. -/
inductive Personality
  | direct
  | supportive
  | questioning
  | securityFirst
  | performanceFirst
  | accessibilityFirst
  deriving DecidableEq, Repr

/-- The tone of a response. -/
inductive Tone
  | direct
  | supportive
  | questioning
  | urgent
  | gentle
  deriving DecidableEq, Repr

/-- An issue put into words. -/
structure Response where
  message : String
  icon : String
  tone : Tone
  showExample : Bool
  sample : Option String
  deriving DecidableEq, Repr

namespace Tone

def all : List Tone := [direct, supportive, questioning, urgent, gentle]

def name : Tone → String
  | direct => "direct"
  | supportive => "supportive"
  | questioning => "questioning"
  | urgent => "urgent"
  | gentle => "gentle"

def ofName? (s : String) : Option Tone := all.find? (·.name == s)

theorem ofName?_name (t : Tone) : ofName? t.name = some t := by cases t <;> rfl

end Tone

namespace Personality

/-- The personalities in their order. -/
def all : List Personality :=
  [direct, supportive, questioning, securityFirst, performanceFirst, accessibilityFirst]

/-- The personality of a coach that is told nothing else. -/
def default : Personality := supportive

def id : Personality → String
  | direct => "direct"
  | supportive => "supportive"
  | questioning => "questioning"
  | securityFirst => "security-first"
  | performanceFirst => "performance-first"
  | accessibilityFirst => "accessibility-first"

/-- The personality with exactly this identifier. -/
def ofExactId? (s : String) : Option Personality := all.find? (·.id == s)

/-- The personality of an identifier as a user may write it. -/
def ofId? (s : String) : Option Personality := ofExactId? (Text.lowerAscii (Text.trimString s))

/-- The personality of an identifier, or the default one. -/
def ofIdOrDefault (s : String) : Personality := (ofId? s).getD default

def title : Personality → String
  | direct => "The Straight Shooter"
  | supportive => "The Encouraging Mentor"
  | questioning => "The Socratic Reviewer"
  | securityFirst => "The Security Guard"
  | performanceFirst => "The Speed Freak"
  | accessibilityFirst => "The Inclusive Designer"

def description : Personality → String
  | direct => "Short, blunt, and treats every finding as a must-fix."
  | supportive => "Praises progress and offers gentler alternatives."
  | questioning => "Asks questions that lead you to the problem yourself."
  | securityFirst => "Escalates anything that could be exploited."
  | performanceFirst => "Talks about every finding in terms of cost and scale."
  | accessibilityFirst => "Frames findings around users of assistive technology."

/-- The kinds of issues that a personality cares about most. -/
def priorities : Personality → List Kind
  | direct => [.bug, .security]
  | supportive => []
  | questioning => [.codeSmell, .style]
  | securityFirst => [.security]
  | performanceFirst => [.performance]
  | accessibilityFirst => [.accessibility]

theorem ofExactId?_id (p : Personality) : ofExactId? p.id = some p := by cases p <;> rfl

theorem ofId?_id (p : Personality) : ofId? p.id = some p := by cases p <;> decide +kernel

@[simp] theorem ofIdOrDefault_id (p : Personality) : ofIdOrDefault p.id = p := by
  simp [ofIdOrDefault, ofId?_id]

end Personality

end CodeCoach
