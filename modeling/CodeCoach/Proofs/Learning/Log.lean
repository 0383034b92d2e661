import CodeCoach.Learning
import Mathlib.Data.List.Induction

/-!
# What a log of feedback teaches

The log is the list of all feedback in order, however long it is.

* `Learning.about`, the feedback on one pattern, and `LearnedPattern.ofLog?`, what it says about the
  pattern;
* `Learning.Wearies`, the logs with a dismissal of a pattern that is at least the third feedback
  on it;
* `history_learnAll`, `pattern?_learnAll`, `increasing_patterns_learnAll`, `mem_suppressed_learnAll`,
  `mem_preferred_learnAll`: the parts of what has been learned, read off the log.
-/

namespace CodeCoach

namespace Learning

theorem learnAll_concat (l : Learning) (fs : List Feedback) (f : Feedback) :
    l.learnAll (fs ++ [f]) = (l.learnAll fs).learn f := by
  simp [learnAll, List.foldl_append]

/-! ### The history -/

theorem newest_eq_self {fs : List Feedback} (h : fs.length ≤ historyLength) : newest fs = fs := by
  simp [newest, Nat.sub_eq_zero_of_le h]

theorem length_newest (fs : List Feedback) :
    (newest fs).length = min fs.length historyLength := by
  rw [newest, List.length_drop]
  omega

/-- What is too old stays so when more feedback comes. -/
theorem newest_append_newest (fs gs : List Feedback) : newest (newest fs ++ gs) = newest (fs ++ gs) := by
  have hlen := length_newest fs
  simp only [newest, List.length_append, List.length_drop] at hlen ⊢
  generalize historyLength = most at hlen ⊢
  -- What is dropped of the first log alone is among what is dropped of both.
  have e : fs.drop (fs.length - most) ++ gs = (fs ++ gs).drop (fs.length - most) := by
    rw [List.drop_append_of_le_length (Nat.sub_le _ _)]
  rw [e, List.drop_drop]
  congr 1
  omega

theorem history_learnAll (fs : List Feedback) : (empty.learnAll fs).history = newest fs := by
  induction fs using List.reverseRecOn with
  | nil => rfl
  | append_singleton fs f ih =>
    rw [learnAll_concat]
    simp only [learn]
    rw [ih, newest_append_newest]

/-! ### Patterns -/

/-- The feedback on one pattern. -/
def about (key : String) (fs : List Feedback) : List Feedback :=
  fs.filter fun f => f.patternKey == key

@[simp] theorem about_nil (key : String) : about key [] = [] := rfl

theorem about_concat (key : String) (fs : List Feedback) (f : Feedback) :
    about key (fs ++ [f]) = about key fs ++ if f.patternKey = key then [f] else [] := by
  by_cases h : f.patternKey = key <;> simp [about, List.filter_append, h]

theorem mem_about {key : String} {fs : List Feedback} {f : Feedback} :
    f ∈ about key fs ↔ f ∈ fs ∧ f.patternKey = key := by
  simp [about]

end Learning

/-- What the feedback on one pattern says about it, where there is any. The kind is that of the first
feedback; the reaction and the time are those of the last. -/
def LearnedPattern.ofLog? (fs : List Feedback) : Option LearnedPattern :=
  fs.getLast?.map fun f =>
    { patternKey := f.patternKey
      kind := (fs.head?.map Feedback.kind).getD f.kind
      reaction := f.action.reaction
      occurrences := min fs.length mostOccurrences
      lastUpdated := f.time }

theorem LearnedPattern.ofLog?_concat (fs : List Feedback) (f : Feedback) :
    ofLog? (fs ++ [f]) = some (after (ofLog? fs) f) := by
  cases fs with
  | nil => simp [ofLog?, after]
  | cons g rest =>
    obtain ⟨last, hlast⟩ : ∃ last, (g :: rest).getLast? = some last := by
      simp [List.getLast?_eq_some_getLast]
    -- Counting one more may stop at the bound before or after.
    have hcount : min ((g :: rest).length + 1) mostOccurrences =
        min (min (g :: rest).length mostOccurrences + 1) mostOccurrences := by omega
    rw [ofLog?, List.getLast?_concat, List.length_append, List.length_singleton, hcount]
    simp [ofLog?, hlast, after]

namespace Learning

theorem pattern?_learn (l : Learning) (f : Feedback) (key : String) :
    (l.learn f).pattern? key =
      if key = f.patternKey then some (LearnedPattern.after (l.pattern? key) f)
      else l.pattern? key := by
  simp only [pattern?, learn]
  rw [Sorted.find?_put]
  show (if key = f.patternKey then _ else _) = _
  by_cases h : key = f.patternKey
  · subst h
    rfl
  · rw [if_neg h, if_neg h]

theorem pattern?_learnAll (fs : List Feedback) (key : String) :
    (empty.learnAll fs).pattern? key = LearnedPattern.ofLog? (about key fs) := by
  induction fs using List.reverseRecOn with
  | nil => rfl
  | append_singleton fs f ih =>
    rw [learnAll_concat, pattern?_learn, ih, about_concat]
    by_cases h : f.patternKey = key
    · rw [if_pos h.symm, if_pos h, LearnedPattern.ofLog?_concat]
    · rw [if_neg (Ne.symm h), if_neg h, List.append_nil]

theorem increasing_patterns_learnAll_of {l : Learning}
    (h : Sorted.Increasing LearnedPattern.patternKey l.patterns) (fs : List Feedback) :
    Sorted.Increasing LearnedPattern.patternKey (l.learnAll fs).patterns := by
  induction fs using List.reverseRecOn with
  | nil => exact h
  | append_singleton fs f ih =>
    rw [learnAll_concat]
    exact Sorted.increasing_put _ _ ih

theorem increasing_patterns_learnAll (fs : List Feedback) :
    Sorted.Increasing LearnedPattern.patternKey (empty.learnAll fs).patterns :=
  increasing_patterns_learnAll_of (Sorted.increasing_nil _) fs

theorem mem_patterns_learnAll {fs : List Feedback} {p : LearnedPattern} :
    p ∈ (empty.learnAll fs).patterns ↔
      LearnedPattern.ofLog? (about p.patternKey fs) = some p := by
  rw [← pattern?_learnAll, pattern?, Sorted.find?_eq_some_iff _ (increasing_patterns_learnAll fs)]
  simp

/-! ### Rules -/

/-- One of the feedbacks is a dismissal of the pattern, and at least the third feedback on it. -/
def Wearies (key : String) (fs : List Feedback) : Prop :=
  ∃ before f after, fs = before ++ f :: after ∧ f.action = .dismissed ∧ f.patternKey = key ∧
    3 ≤ (about key (before ++ [f])).length

theorem wearies_concat {key : String} {fs : List Feedback} {f : Feedback} :
    Wearies key (fs ++ [f]) ↔ Wearies key fs ∨
      (f.action = .dismissed ∧ f.patternKey = key ∧ 3 ≤ (about key (fs ++ [f])).length) := by
  constructor
  · rintro ⟨before, g, after, e, hg⟩
    -- The dismissal is the last feedback, or it comes before it.
    rcases List.eq_nil_or_concat after with rfl | ⟨after, h, rfl⟩
    · obtain ⟨rfl, hfg⟩ := List.append_inj' e rfl
      obtain rfl : f = g := by simpa using hfg
      exact Or.inr hg
    · have e : fs ++ [f] = (before ++ g :: after) ++ [h] := by simpa using e
      obtain ⟨rfl, -⟩ := List.append_inj' e rfl
      exact Or.inl ⟨before, g, after, rfl, hg⟩
  · rintro (⟨before, g, after, rfl, hg⟩ | hf)
    · exact ⟨before, g, after ++ [f], by simp, hg⟩
    · exact ⟨fs, f, [], rfl, hf⟩

theorem not_wearies_nil (key : String) : ¬ Wearies key [] := by
  rintro ⟨before, f, after, e, -⟩
  simp at e

/-- More feedback takes no weariness away. -/
theorem Wearies.append {key : String} {fs : List Feedback} (h : Wearies key fs)
    (gs : List Feedback) : Wearies key (fs ++ gs) := by
  obtain ⟨before, f, after, rfl, hf⟩ := h
  exact ⟨before, f, after ++ gs, by simp, hf⟩

/-- The number of occurrences that decides on suppression is that of the log. -/
theorem suppressedFrom_le_occurrences (fs : List Feedback) (f : Feedback) :
    LearnedPattern.suppressedFrom ≤
        (LearnedPattern.after ((empty.learnAll fs).pattern? f.patternKey) f).occurrences ↔
      3 ≤ (about f.patternKey (fs ++ [f])).length := by
  have e : some (LearnedPattern.after ((empty.learnAll fs).pattern? f.patternKey) f) =
      LearnedPattern.ofLog? (about f.patternKey (fs ++ [f])) := by
    rw [pattern?_learnAll, about_concat, if_pos rfl, LearnedPattern.ofLog?_concat]
  obtain ⟨last, -, h⟩ := Option.map_eq_some_iff.1 e.symm
  -- The count stops far above three, so its bound does not matter here.
  rw [← h, LearnedPattern.suppressedFrom]
  simp only [LearnedPattern.mostOccurrences]
  omega

theorem mem_suppressed_learnAll {fs : List Feedback} {key : String} :
    key ∈ (empty.learnAll fs).rules.suppressed ↔ Wearies key fs := by
  induction fs using List.reverseRecOn with
  | nil => exact iff_of_false (NameSet.not_mem_empty key) (not_wearies_nil key)
  | append_singleton fs f ih =>
    rw [learnAll_concat, wearies_concat, ← ih]
    simp only [learn, Rules.after]
    have hcount := suppressedFrom_le_occurrences fs f
    by_cases hf : f.action = .dismissed ∧ 3 ≤ (about f.patternKey (fs ++ [f])).length
    · rw [if_pos (by simpa using ⟨hf.1, hcount.2 hf.2⟩), NameSet.mem_insert]
      constructor
      · rintro (rfl | h)
        · exact Or.inr ⟨hf.1, rfl, hf.2⟩
        · exact Or.inl h
      · rintro (h | ⟨-, rfl, -⟩)
        · exact Or.inr h
        · exact Or.inl rfl
    · rw [if_neg (by simpa [hcount] using fun h => by simpa using fun h3 => hf ⟨h, h3⟩)]
      constructor
      · exact Or.inl
      · rintro (h | ⟨h1, rfl, h3⟩)
        · exact h
        · exact absurd ⟨h1, h3⟩ hf

theorem mem_preferred_learnAll {fs : List Feedback} {key : String} :
    key ∈ (empty.learnAll fs).rules.preferred ↔
      ∃ f ∈ fs, f.action = .accepted ∧ f.patternKey = key := by
  induction fs using List.reverseRecOn with
  | nil => simp [learnAll, empty, Rules.empty]
  | append_singleton fs f ih =>
    rw [learnAll_concat]
    simp only [learn, Rules.after]
    by_cases hf : f.action = .accepted
    · simp only [hf, beq_self_eq_true, if_true, NameSet.mem_insert, ih, List.mem_append,
        List.mem_singleton, or_and_right, exists_or, exists_eq_left, true_and]
      rw [or_comm, eq_comm]
    · simp [hf, ih, or_and_right, exists_or]

end Learning

end CodeCoach
