import CodeCoach.Frequency
import CodeCoach.Personality

/-!
# Settings

* `Settings`, what a user may set about reviews, and their defaults;
* `Settings.voice`, the personality that is meant by its identifier;
* `Settings.normalized`, with the identifier of that personality.
-/

namespace CodeCoach

/-- How the coach behaves. -/
structure Settings where
  /-- Whether changes and saves are reviewed without a request. -/
  proactive : Bool
  frequency : Frequency
  /-- The most interventions of one review that nobody asked for. -/
  maxSuggestions : Nat
  /-- The identifier of a personality, as the user wrote it. -/
  personality : String
  /-- Whether remedies are put through the enhancer. -/
  enhance : Bool
  cooldownSeconds : Nat
  /-- The quiet time after a change, in milliseconds. -/
  debounceMillis : Nat
  deriving DecidableEq, Repr

namespace Settings

def default : Settings where
  proactive := true
  frequency := .unrestricted
  maxSuggestions := 3
  personality := Personality.default.id
  enhance := false
  cooldownSeconds := 20
  debounceMillis := 1000

/-- The personality that the identifier means. -/
def voice (s : Settings) : Personality := .ofIdOrDefault s.personality

/-- The settings with the identifier written as the personality itself writes it. -/
def normalized (s : Settings) : Settings := { s with personality := s.voice.id }

@[simp] theorem voice_normalized (s : Settings) : s.normalized.voice = s.voice := by
  simp only [normalized, voice, Personality.ofIdOrDefault_id]

theorem normalized_normalized (s : Settings) : s.normalized.normalized = s.normalized := by
  simp only [normalized, voice, Personality.ofIdOrDefault_id]

end Settings

end CodeCoach
