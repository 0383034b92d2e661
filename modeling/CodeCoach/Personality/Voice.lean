import CodeCoach.Personality

/-!
# Responses

How each personality puts an issue into words.  All but the questioning one show the suggestion of
the issue as an example where it has one; the questioning one asks instead, with a question chosen
by the line number.

* `Personality.icon`, one icon for each personality;
* `Personality.respond`, the response to an issue.
-/

namespace CodeCoach

open Text

namespace Personality

def icon : Personality → String
  | direct => "alert"
  | supportive => "lightbulb"
  | questioning => "question"
  | securityFirst => "shield"
  | performanceFirst => "zap"
  | accessibilityFirst => "eye"

/-- A description without the dots at its end. -/
def plainDescription (s : String) : List Char := (s.toList.reverse.dropWhile (· == '.')).reverse

/-- The questions about a kind of issue. -/
def questions : Kind → List String
  | .bug =>
    ["What happens here if the value is null or undefined?",
      "Which input would make this line throw?",
      "How would a caller find out that this failed?"]
  | .security =>
    ["Who controls the data that reaches this line?",
      "What could an attacker put into this value?",
      "Where is this input validated or escaped?"]
  | .performance =>
    ["How does this behave when the input is ten times larger?",
      "Is there a way to avoid repeating this work on every iteration?",
      "Could a lookup table replace the inner scan?"]
  | .style =>
    ["Would a teammate understand this at a glance?",
      "Is this consistent with the rest of the file?",
      "Will this still be needed once the feature ships?"]
  | .accessibility =>
    ["How would a screen reader announce this element?",
      "Can this be reached and used with a keyboard alone?",
      "What does someone who cannot see this element miss?"]
  | .codeSmell =>
    ["What would it take to resolve this now?",
      "Who is tracking this follow-up?",
      "What is the risk of leaving this as it is?"]

/-- The question for an issue of a kind on a line. -/
def questionFor (kind : Kind) (line : Nat) : String :=
  (questions kind)[line % (questions kind).length]?.getD ""

/-- What an issue costs in running time. -/
def cost : Kind → String
  | .performance => "work here grows faster than the input and will dominate the hot path"
  | .bug => "failures here turn into retries and wasted cycles"
  | .security => "bolting protection on later costs far more than doing it now"
  | .style => "code that is hard to read is hard to profile"
  | .accessibility => "extra rework passes on the UI slow every release"
  | .codeSmell => "deferred work compounds like interest"

/-- Whom an issue affects. -/
def affected : Kind → String
  | .accessibility => "people using screen readers or keyboards may be locked out (WCAG 2.1)"
  | .bug => "a crash here strands users who depend on assistive tools the most"
  | .security => "compromised pages put vulnerable users at the greatest risk"
  | .performance => "slow pages hurt users on older devices and assistive tech first"
  | .style => "consistent markup keeps inclusive patterns easy to reuse"
  | .codeSmell => "unfinished work is where accessibility checks get skipped"

/-- Whether the security minded personality raises the alarm. -/
def isUrgent (c : Context) : Bool := c.kind == .security || c.severity == .critical

def message (p : Personality) (c : Context) : String :=
  let line := toString c.line
  let plain := String.ofList (plainDescription c.description)
  match p with
  | direct => "Line " ++ line ++ ": " ++ plain ++ ". Fix this before you move on."
  | supportive =>
    "Nice progress! One small thing on line " ++ line ++ ": " ++
      String.ofList (lowerFirst (plainDescription c.description)) ++ ". " ++
      (if c.suggestion.isSome then "Want to see an alternative?"
        else "Worth a second look when you have a moment.")
  | questioning => questionFor c.kind c.line ++ " (line " ++ line ++ ": " ++ c.description ++ ")"
  | securityFirst =>
    if isUrgent c then
      "Security risk on line " ++ line ++ ": " ++ plain ++
        ". This is exactly what attackers probe for."
    else
      "Line " ++ line ++ ": " ++ plain ++
        ". Not exploitable on its own, but sloppy code hides real holes."
  | performanceFirst =>
    "Throughput check, line " ++ line ++ ": " ++ plain ++ ". Impact: " ++ cost c.kind ++ "."
  | accessibilityFirst =>
    "Line " ++ line ++ ": " ++ plain ++ ". Who it affects: " ++ affected c.kind ++ "."

def tone (p : Personality) (c : Context) : Tone :=
  match p with
  | direct => .direct
  | supportive => .supportive
  | questioning => .questioning
  | securityFirst => if isUrgent c then .urgent else .direct
  | performanceFirst => .direct
  | accessibilityFirst => .gentle

/-- The example that goes with a response. -/
def sample (p : Personality) (c : Context) : Option String :=
  if p == questioning then none else c.suggestion

/-- The response of a personality to an issue. -/
def respond (p : Personality) (c : Context) : Response where
  message := p.message c
  icon := p.icon
  tone := p.tone c
  showExample := (p.sample c).isSome
  sample := p.sample c

end Personality

end CodeCoach
