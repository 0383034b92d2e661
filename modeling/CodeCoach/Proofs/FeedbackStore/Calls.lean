import CodeCoach.FeedbackStore
import CodeCoach.Intervention
import CodeCoach.Proofs.Learning.Log
import CodeCoach.Proofs.PatternKey

/-!
# Calls of a feedback store

* `FeedbackStore.Call`, what a store is asked to do, and what happens to its storage in between;
* `FeedbackStore.call`, `FeedbackStore.run`, one call and many;
* `Call.sinceReset`, the feedback that was recorded after the last reset, however much it is;
* `learning_run_from`, `learning_run`: a run that began with nothing learned has learned what that log
  teaches, whatever became of the storage.
-/

namespace CodeCoach.FeedbackStore

/-- What a store of feedback is asked to do. -/
inductive Call
  /-- Learns from an action on an intervention. -/
  | record (i : Intervention) (action : Action) (note : Option String) (now : Instant)
  | reset
  /-- Nothing is asked, but from here on the storage is another one: requests to it begin or cease
  to fail, or somebody else writes to it. -/
  | storage (s : Storage)

namespace Call

/-- The feedback that a call records. -/
def feedback? : Call → Option Feedback
  | record i action note now => some (i.feedback action note now)
  | reset => none
  | storage _ => none

def isReset : Call → Bool
  | record .. => false
  | reset => true
  | storage _ => false

/-- The feedback of the calls after the last reset, in order. -/
def sinceReset (calls : List Call) : List Feedback :=
  (calls.reverse.takeWhile fun c => !c.isReset).reverse.filterMap feedback?

@[simp] theorem sinceReset_nil : sinceReset [] = [] := rfl

theorem sinceReset_concat (calls : List Call) (c : Call) :
    sinceReset (calls ++ [c]) =
      if c.isReset then [] else sinceReset calls ++ c.feedback?.toList := by
  cases c <;> simp [sinceReset, isReset, feedback?]

theorem sinceReset_append {calls more : List Call} (h : ∀ c ∈ more, c.isReset = false) :
    sinceReset (calls ++ more) = sinceReset calls ++ more.filterMap feedback? := by
  induction more using List.reverseRecOn with
  | nil => simp
  | append_singleton more c ih =>
    have hc := h c (by simp)
    have ih := ih fun d hd => h d (by simp [hd])
    rw [← List.append_assoc, sinceReset_concat, ih, hc]
    cases hf : c.feedback? <;> simp [hf, List.filterMap_append]

/-- Every feedback in the log was recorded by one of the calls. -/
theorem exists_record_of_mem_sinceReset {calls : List Call} {f : Feedback}
    (h : f ∈ sinceReset calls) :
    ∃ i action note now, record i action note now ∈ calls ∧ f = i.feedback action note now := by
  obtain ⟨c, hc, hf⟩ := List.mem_filterMap.1 h
  have hmem : c ∈ calls :=
    List.mem_reverse.1 ((List.takeWhile_sublist _).mem (List.mem_reverse.1 hc))
  cases c with
  | record i action note now => exact ⟨i, action, note, now, hmem, (Option.some.inj hf).symm⟩
  | reset => cases hf
  | storage s => cases hf

end Call

/-- Answers a call. -/
def call (s : FeedbackStore) : Call → Except StorageError Unit × FeedbackStore
  | .record i action note now => s.record (i.feedback action note now)
  | .reset => s.reset
  | .storage other => (.ok (), { s with storage := other })

/-- The store after calls. -/
def run (s : FeedbackStore) (calls : List Call) : FeedbackStore :=
  calls.foldl (fun s c => (s.call c).2) s

@[simp] theorem run_nil (s : FeedbackStore) : s.run [] = s := rfl

theorem run_append (s : FeedbackStore) (calls more : List Call) :
    s.run (calls ++ more) = (s.run calls).run more := List.foldl_append

theorem run_concat (s : FeedbackStore) (calls : List Call) (c : Call) :
    s.run (calls ++ [c]) = ((s.run calls).call c).2 := run_append s calls [c]

theorem learning_call (s : FeedbackStore) (c : Call) :
    (s.call c).2.learning =
      if c.isReset then .empty else s.learning.learnAll c.feedback?.toList := by
  cases c <;> rfl

/-- What a store has learned comes from what it began with, unless it was reset, and from the
feedback in its log. -/
theorem learning_run_from (s : FeedbackStore) (calls : List Call) :
    (s.run calls).learning =
      (if calls.any Call.isReset then .empty else s.learning).learnAll (Call.sinceReset calls) := by
  induction calls using List.reverseRecOn with
  | nil => rfl
  | append_singleton calls c ih =>
    rw [run_concat, learning_call, Call.sinceReset_concat, ih]
    cases hc : c.isReset with
    | true => simp [hc, Learning.learnAll]
    | false => simp [hc, Learning.learnAll]

theorem learning_run (st : Storage) (calls : List Call) :
    ((fresh st).run calls).learning = Learning.empty.learnAll (Call.sinceReset calls) := by
  rw [learning_run_from]
  split <;> rfl

/-- Feedback is filed under the key of its kind and of the snippet it is about. -/
theorem patternKey_of_mem_sinceReset {calls : List Call} {f : Feedback}
    (h : f ∈ Call.sinceReset calls) : ∃ snippet, f.patternKey = patternKey f.kind snippet := by
  obtain ⟨i, action, note, now, -, rfl⟩ := Call.exists_record_of_mem_sinceReset h
  exact ⟨i.context.snippet, rfl⟩

end CodeCoach.FeedbackStore
