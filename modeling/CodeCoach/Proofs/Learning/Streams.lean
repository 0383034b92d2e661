import CodeCoach.Proofs.Learning.Log
import CodeCoach.Proofs.PatternKey
import CodeCoach.Proofs.Sorted
import Mathlib.Data.List.Perm.Basic

/-!
# Feedback on different kinds does not mix

The feedback on the issues of one kind is a stream.  A pattern belongs to one kind, so all that is
learned about it, and the sensitivity to the kind, comes from that stream.

* `Learning.view_learnAll`: a view that only feedback of some sort changes is made by the feedback
  of that sort;
* `Standing`, what is known of one pattern, with `standing_learnAll` and `sensitivity_learnAll_get`;
* `SameStreams`, logs that differ in how the streams are interleaved, with
  `patterns_learnAll_congr` and `rules_learnAll_congr`: they teach the same.
-/

namespace CodeCoach

/-! ### Views -/

/-- What is known of one pattern. -/
structure Standing where
  pattern : Option LearnedPattern
  suppressed : Bool
  preferred : Bool
  deriving DecidableEq, Repr

/-- What is known of a pattern after one more feedback on it. -/
def Standing.after (s : Standing) (f : Feedback) : Standing :=
  let pattern := LearnedPattern.after s.pattern f
  { pattern := some pattern
    suppressed := s.suppressed ||
      (f.action == .dismissed && LearnedPattern.suppressedFrom ≤ pattern.occurrences)
    preferred := s.preferred || f.action == .accepted }

namespace Learning

/-- A view that only feedback of some sort changes is made by the feedback of that sort. -/
theorem view_learnAll {α : Type} (view : Learning → α) {step : α → Feedback → α}
    {sort : Feedback → Bool}
    (h : ∀ l f, view (l.learn f) = if sort f then step (view l) f else view l) (l : Learning)
    (fs : List Feedback) : view (l.learnAll fs) = (fs.filter sort).foldl step (view l) := by
  induction fs using List.reverseRecOn with
  | nil => rfl
  | append_singleton fs f ih =>
    rw [learnAll_concat, h, ih, List.filter_append, List.foldl_append]
    cases hf : sort f <;> simp [hf]

def standing (l : Learning) (key : String) : Standing where
  pattern := l.pattern? key
  suppressed := l.rules.suppressed.contains key
  preferred := l.rules.preferred.contains key

theorem standing_learn (l : Learning) (f : Feedback) (key : String) :
    (l.learn f).standing key =
      if f.patternKey == key then (l.standing key).after f else l.standing key := by
  have hpattern := l.pattern?_learn f key
  simp only [standing, hpattern]
  simp only [learn, Rules.after, NameSet.contains_insert_if]
  by_cases h : f.patternKey = key
  · subst h
    simp [Standing.after]
  · simp [h, Ne.symm h]

theorem sensitivity_learn (l : Learning) (f : Feedback) (kind : Kind) :
    (l.learn f).rules.sensitivity.get kind =
      if f.kind == kind then some (Sensitivity.after (l.rules.sensitivity.get kind) f.action)
      else l.rules.sensitivity.get kind := by
  simp only [learn, Rules.after, PerKind.get_set]
  by_cases h : f.kind = kind
  · subst h
    simp
  · simp [h, Ne.symm h]

/-- What is known of a pattern comes from the feedback on it. -/
theorem standing_learnAll (l : Learning) (fs : List Feedback) (key : String) :
    (l.learnAll fs).standing key = (about key fs).foldl Standing.after (l.standing key) :=
  view_learnAll (fun l => l.standing key) (fun l f => l.standing_learn f key) l fs

/-- The feedback on one kind. -/
def onKind (kind : Kind) (fs : List Feedback) : List Feedback := fs.filter fun f => f.kind == kind

/-- The sensitivity to a kind comes from the feedback on it. -/
theorem sensitivity_learnAll_get (l : Learning) (fs : List Feedback) (kind : Kind) :
    (l.learnAll fs).rules.sensitivity.get kind =
      (onKind kind fs).foldl (fun known f => some (Sensitivity.after known f.action))
        (l.rules.sensitivity.get kind) :=
  view_learnAll (fun l => l.rules.sensitivity.get kind)
    (fun l f => l.sensitivity_learn f kind) l fs

/-- As long as nothing has to go, the history grows by what is learned. -/
theorem history_learnAll_of_le {l : Learning} {fs : List Feedback}
    (h : l.history.length + fs.length ≤ historyLength) :
    (l.learnAll fs).history = l.history ++ fs := by
  induction fs using List.reverseRecOn with
  | nil => exact (List.append_nil _).symm
  | append_singleton fs f ih =>
    rw [List.length_append, List.length_singleton] at h
    rw [learnAll_concat]
    simp only [learn]
    rw [ih (by omega), newest_eq_self, List.append_assoc]
    simp only [List.length_append, List.length_singleton]
    omega

/-! ### Streams -/

/-- The logs have the same feedback on each kind, in the same order. -/
def SameStreams (fs gs : List Feedback) : Prop := ∀ kind, onKind kind fs = onKind kind gs

namespace SameStreams

variable {fs gs : List Feedback}

/-- Each feedback occurs as often in one log as in the other, since it belongs to one stream. -/
theorem perm (h : SameStreams fs gs) : fs.Perm gs := by
  rw [List.perm_iff_count]
  intro f
  have hcount : ∀ l : List Feedback, (onKind f.kind l).count f = l.count f :=
    fun l => List.count_filter (by simp)
  rw [← hcount fs, ← hcount gs, h]

/-- All feedback on a pattern is in the stream of its kind, so it comes in the same order. -/
theorem about_eq (h : SameStreams fs gs)
    (hfs : ∀ f ∈ fs, ∃ snippet, f.patternKey = patternKey f.kind snippet)
    (hgs : ∀ f ∈ gs, ∃ snippet, f.patternKey = patternKey f.kind snippet) (key : String) :
    about key fs = about key gs := by
  by_cases hkey : ∃ kind snippet, key = patternKey kind snippet
  · obtain ⟨kind, snippet, rfl⟩ := hkey
    have hstream : ∀ l : List Feedback, (∀ f ∈ l, ∃ s, f.patternKey = patternKey f.kind s) →
        about (patternKey kind snippet) l = about (patternKey kind snippet) (onKind kind l) := by
      intro l hl
      rw [about, about, onKind, List.filter_filter]
      refine List.filter_congr fun f hf => ?_
      obtain ⟨s, hs⟩ := hl f hf
      by_cases hf : f.patternKey = patternKey kind snippet
      · simp [hf, (patternKey_inj.1 (hs.symm.trans hf)).1]
      · simp [hf]
    rw [hstream fs hfs, hstream gs hgs, h kind]
  · -- No feedback is filed under such a key.
    have hnone : ∀ l : List Feedback, (∀ f ∈ l, ∃ s, f.patternKey = patternKey f.kind s) →
        about key l = [] := by
      intro l hl
      rw [about, List.filter_eq_nil_iff]
      intro f hf he
      obtain ⟨s, hs⟩ := hl f hf
      exact hkey ⟨f.kind, s, (beq_iff_eq.1 he).symm.trans hs⟩
    rw [hnone fs hfs, hnone gs hgs]

end SameStreams

section Congr

variable {l : Learning} {fs gs : List Feedback}

theorem patterns_learnAll_congr (hl : Sorted.Increasing LearnedPattern.patternKey l.patterns)
    (h : ∀ key, about key fs = about key gs) :
    (l.learnAll fs).patterns = (l.learnAll gs).patterns := by
  refine (increasing_patterns_learnAll_of hl fs).ext _ (increasing_patterns_learnAll_of hl gs) ?_
  intro key
  have hstanding := l.standing_learnAll fs key
  rw [h, ← standing_learnAll] at hstanding
  exact congrArg Standing.pattern hstanding

theorem rules_learnAll_congr (h : ∀ key, about key fs = about key gs)
    (hkinds : SameStreams fs gs) : (l.learnAll fs).rules = (l.learnAll gs).rules := by
  have hstanding : ∀ key, (l.learnAll fs).standing key = (l.learnAll gs).standing key := by
    intro key
    rw [standing_learnAll, standing_learnAll, h]
  have hsuppressed : (l.learnAll fs).rules.suppressed = (l.learnAll gs).rules.suppressed :=
    NameSet.ext fun key => congrArg Standing.suppressed (hstanding key)
  have hpreferred : (l.learnAll fs).rules.preferred = (l.learnAll gs).rules.preferred :=
    NameSet.ext fun key => congrArg Standing.preferred (hstanding key)
  have hsensitivity : (l.learnAll fs).rules.sensitivity = (l.learnAll gs).rules.sensitivity :=
    PerKind.ext_get fun kind => by
      rw [sensitivity_learnAll_get, sensitivity_learnAll_get, hkinds]
  cases hr : (l.learnAll fs).rules
  cases hr' : (l.learnAll gs).rules
  simp only [hr, hr', Rules.mk.injEq] at hsuppressed hpreferred hsensitivity ⊢
  exact ⟨hsuppressed, hpreferred, hsensitivity⟩

end Congr

end Learning

/-! ### Counts -/

theorem Stats.ofHistory_perm {fs gs : List Feedback} (h : fs.Perm gs) :
    ofHistory fs = ofHistory gs := by
  have hcount : ∀ action, count action fs = count action gs := fun action => h.countP_eq _
  simp only [ofHistory, hcount, h.length_eq]

end CodeCoach
