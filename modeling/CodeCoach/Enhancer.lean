import CodeCoach.Issue

/-!
# Enhancers

An enhancer rewords the remedy of an issue.

* `EnhanceError`, why it may fail;
* `Question`, what an enhancer is asked, and `Enhancer`, its answers;
* `enhancerEndpoint`, the address of a service that does it, and `Enhancer.unreachable`, a service
  that cannot be reached.
-/

namespace CodeCoach

/-- Why a remedy could not be reworded. -/
inductive EnhanceError
  | status (text : String)
  | emptySuggestion
  | request (cause : String)
  deriving DecidableEq, Repr

def EnhanceError.message : EnhanceError → String
  | status text => "enhancement service returned " ++ text
  | emptySuggestion => "enhancement service returned an empty suggestion"
  | request cause => "enhancement request failed: " ++ cause

/-- A text to reword, with the language of its document and the kind of its issue. -/
structure Question where
  text : String
  languageTag : String
  kind : Kind
  deriving DecidableEq, Repr

/-- A new text, or the reason why there is none. -/
abbrev Answer := Except EnhanceError String

/-- Answers to questions. -/
abbrev Enhancer := Question → Answer

/-- The address for requests to the service at a base address, without the slashes that end it. -/
def enhancerEndpoint (base : String) : String :=
  String.ofList (base.toList.reverse.dropWhile (· == '/')).reverse ++ "/enhance"

namespace Enhancer

/-- Answers every question with the text itself. -/
def identity : Enhancer := fun q => .ok q.text

/-- Answers every question with a failure. -/
def failing (e : EnhanceError) : Enhancer := fun _ => .error e

/-- The service at a base address where no service can be reached. -/
def unreachable (base : String) : Enhancer :=
  failing (.request ("error sending request for url (" ++ enhancerEndpoint base ++ ")"))

end Enhancer

/-- What an enhancer is asked about an issue: its remedy is to be reworded, or the message where
it has none. -/
def Issue.question (i : Issue) (languageTag : String) : Question where
  text := i.remedy.getD i.message
  languageTag := languageTag
  kind := i.kind

/-- The context of an issue after the answer to its question. -/
def Issue.enhancedContext (i : Issue) : Answer → Context
  | .ok text => { i.context with suggestion := some text }
  | .error _ => i.context

theorem Issue.enhancedContext_patternKey (i : Issue) (a : Answer) :
    (i.enhancedContext a).patternKey = i.patternKey := by
  cases a <;> rfl

end CodeCoach
