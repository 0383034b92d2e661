import CodeCoach.Storage
import CodeCoach.Wire.Feedback

/-!
# Learning that is kept in a storage

* `FeedbackStore`, a storage and what has been learned;
* `FeedbackStore.load`, which reads what a storage holds; a key that is missing or cannot be read
  leaves its part empty;
* `FeedbackStore.record`, `FeedbackStore.reset`, which change what has been learned, whether or not
  the storage can keep it, and write all of it anew.
-/

namespace CodeCoach

/-- A storage and what has been learned. -/
structure FeedbackStore where
  storage : Storage
  learning : Learning

namespace FeedbackStore

def historyKey : String := "feedback_history"

def patternsKey : String := "learning_patterns"

def rulesKey : String := "adaptation_rules"

/-- The value of a key that can be read, or else a default. -/
def readOr (s : Storage) (key : String) (dflt : α) (read : Json → Option α) : α :=
  match s.get? key with
  | .ok (some v) => (read v).getD dflt
  | _ => dflt

/-- What a storage holds. -/
def stored (s : Storage) : Learning where
  history := Learning.newest (readOr s historyKey [] (Json.list? Feedback.ofJson?))
  patterns :=
    Sorted.ofList LearnedPattern.patternKey
      (readOr s patternsKey [] (Json.list? LearnedPattern.ofJson?))
  rules := readOr s rulesKey .empty Rules.ofJson?

/-- A store of what the storage holds. -/
def load (s : Storage) : FeedbackStore := ⟨s, stored s⟩

/-- A store that has learned nothing, whatever the storage holds. -/
def fresh (s : Storage) : FeedbackStore := ⟨s, .empty⟩

/-- What is written of what has been learned, in the order in which it is written. -/
def values (l : Learning) : List (String × Json) :=
  [(historyKey, .arr (l.history.map Feedback.toJson)),
    (patternsKey, .arr (l.patterns.map LearnedPattern.toJson)),
    (rulesKey, l.rules.toJson)]

/-- Writes what has been learned. -/
def persist (s : FeedbackStore) : Except StorageError Unit × FeedbackStore :=
  let (result, storage) := s.storage.setAll (values s.learning)
  (result, { s with storage := storage })

/-- Learns from one feedback. -/
def record (s : FeedbackStore) (f : Feedback) : Except StorageError Unit × FeedbackStore :=
  persist { s with learning := s.learning.learn f }

/-- Forgets everything. -/
def reset (s : FeedbackStore) : Except StorageError Unit × FeedbackStore :=
  persist { s with learning := .empty }

@[simp] theorem learning_persist (s : FeedbackStore) : s.persist.2.learning = s.learning := rfl

@[simp] theorem learning_record (s : FeedbackStore) (f : Feedback) :
    (s.record f).2.learning = s.learning.learn f := rfl

@[simp] theorem learning_reset (s : FeedbackStore) : s.reset.2.learning = .empty := rfl

end FeedbackStore

end CodeCoach
