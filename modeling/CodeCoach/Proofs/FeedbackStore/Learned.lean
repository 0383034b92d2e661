import CodeCoach.Proofs.FeedbackStore.Calls
import Mathlib.Algebra.Group.Nat.Defs

/-!
# What a store has learned, by its log

The log of a store holds the feedback since its last reset.

* `shows_by_log`: which patterns are suppressed and preferred, and which issues are hidden;
* `aggregates_by_log`: the history, the patterns and the counts.

Both hold whatever becomes of the storage.
-/

namespace CodeCoach

theorem Rules.shows_eq_false_iff (r : Rules) (i : Issue) :
    r.shows i = false ↔ i.patternKey ∈ r.suppressed ∨
      (i.severity ≠ .critical ∧ r.sensitivityTo i.kind < Sensitivity.cutoff) := by
  rw [← NameSet.contains_iff, shows, Bool.and_eq_false_iff, Bool.not_eq_false', Bool.not_eq_false',
    Bool.and_eq_true, decide_eq_true_iff, bne_iff_ne, and_comm (a := i.severity ≠ .critical)]

/-- One suppressed key is that of two issues exactly when it is the key of their common kind and of
the common start of their snippets. -/
theorem NameSet.exists_mem_patternKey_iff (s : NameSet) (i j : Issue) :
    (∃ key ∈ s, i.patternKey = key ∧ j.patternKey = key) ↔
      i.kind = j.kind ∧ i.snippet.toList.take keyLength = j.snippet.toList.take keyLength ∧
        ∃ key ∈ s, key.toList = i.kind.name.toList ++ ':' :: i.snippet.toList.take keyLength := by
  constructor
  · rintro ⟨key, hkey, rfl, hij⟩
    obtain ⟨hkind, hstart⟩ := patternKey_inj.1 hij
    exact ⟨hkind.symm, hstart.symm, _, hkey, toList_patternKey i.kind i.snippet⟩
  · rintro ⟨hkind, hstart, key, hkey, e⟩
    rw [← toList_patternKey, String.toList_inj] at e
    exact ⟨key, hkey, e.symm, (patternKey_inj.2 ⟨hkind.symm, hstart.symm⟩).trans e.symm⟩

namespace Learning

/-- The last feedback on a pattern gives its kind too, where feedback is filed under the key of its
kind. -/
theorem mem_patterns_iff_of_filed {fs : List Feedback} {p : LearnedPattern}
    (h : ∀ f ∈ fs, ∃ snippet, f.patternKey = patternKey f.kind snippet) :
    p ∈ (empty.learnAll fs).patterns ↔
      ∃ f, (about p.patternKey fs).getLast? = some f ∧ p.kind = f.kind ∧
        p.reaction = f.action.reaction ∧ p.lastUpdated = f.time ∧
        p.occurrences = min (about p.patternKey fs).length LearnedPattern.mostOccurrences := by
  -- A key is that of one kind, so the first and the last feedback agree in it.
  have same : ∀ f ∈ about p.patternKey fs, ∀ g ∈ about p.patternKey fs, f.kind = g.kind := by
    intro f hf g hg
    obtain ⟨hf, hfk⟩ := mem_about.1 hf
    obtain ⟨hg, hgk⟩ := mem_about.1 hg
    obtain ⟨s, hs⟩ := h f hf
    obtain ⟨t, ht⟩ := h g hg
    exact (patternKey_inj.1 (hs.symm.trans (hfk.trans (hgk.symm.trans ht)))).1
  rw [mem_patterns_learnAll, LearnedPattern.ofLog?, Option.map_eq_some_iff]
  refine exists_congr fun f => and_congr_right fun hlast => ?_
  have hf := List.mem_of_getLast? hlast
  have hfirst : ((about p.patternKey fs).head?.map Feedback.kind).getD f.kind = f.kind := by
    cases hh : (about p.patternKey fs).head? with
    | none => rfl
    | some g => exact same g (List.mem_of_head? hh) f hf
  have hkey := (mem_about.1 hf).2
  rw [hfirst]
  obtain ⟨key, kind, reaction, occurrences, lastUpdated⟩ := p
  simp only [LearnedPattern.mk.injEq] at hkey ⊢
  constructor
  · rintro ⟨-, rfl, rfl, rfl, rfl⟩
    exact ⟨rfl, rfl, rfl, rfl⟩
  · rintro ⟨rfl, rfl, rfl, rfl⟩
    exact ⟨hkey, rfl, rfl, rfl, rfl⟩

/-- A pattern is known exactly when there was feedback on it. -/
theorem exists_mem_patterns_iff {fs : List Feedback} {key : String} :
    (∃ p ∈ (empty.learnAll fs).patterns, p.patternKey = key) ↔ ∃ f ∈ fs, f.patternKey = key := by
  have found : (∃ p ∈ (empty.learnAll fs).patterns, p.patternKey = key) ↔
      ((empty.learnAll fs).pattern? key).isSome := by
    simp only [Option.isSome_iff_exists, pattern?,
      Sorted.find?_eq_some_iff _ (increasing_patterns_learnAll fs)]
  rw [found, pattern?_learnAll]
  simp [LearnedPattern.ofLog?, about]

end Learning

namespace FeedbackStore

open Learning (Wearies about)

/-- **What is suppressed and what is hidden.** A pattern is suppressed exactly when one of the
feedbacks in the log is a dismissal of it and at least the third feedback on it, and preferred
exactly when one is an acceptance. An issue is hidden exactly when its pattern is suppressed, or when
it is not critical and the sensitivity to its kind is low. Further feedback lifts no suppression,
preferences decide nothing, and a suppression reaches as far as the kind and the first thirty
characters. -/
theorem shows_by_log (st : Storage) (calls : List Call) :
    let store := (fresh st).run calls
    let log := Call.sinceReset calls
    let rules := store.learning.rules
    (∀ key, key ∈ rules.suppressed ↔ Wearies key log) ∧
    (∀ key, key ∈ rules.preferred ↔ ∃ f ∈ log, f.action = .accepted ∧ f.patternKey = key) ∧
    (∀ i, store.learning.shows i = false ↔
      Wearies i.patternKey log ∨ (i.severity ≠ .critical ∧ rules.sensitivityTo i.kind < 0.5)) ∧
    (∀ more key, (∀ c ∈ more, c.isReset = false) → key ∈ rules.suppressed →
      key ∈ (store.run more).learning.rules.suppressed) ∧
    (∀ preferred i, Rules.shows { rules with preferred := preferred } i = store.learning.shows i) ∧
    (∀ i j : Issue, (∃ key ∈ rules.suppressed, i.patternKey = key ∧ j.patternKey = key) ↔
      i.kind = j.kind ∧ i.snippet.toList.take 30 = j.snippet.toList.take 30 ∧
        ∃ key ∈ rules.suppressed,
          key.toList = i.kind.name.toList ++ ':' :: i.snippet.toList.take 30) := by
  intro store log rules
  have hl : store.learning = Learning.empty.learnAll log := learning_run st calls
  have hsuppressed : ∀ key, key ∈ rules.suppressed ↔ Wearies key log := by
    intro key
    show key ∈ store.learning.rules.suppressed ↔ _
    rw [hl, Learning.mem_suppressed_learnAll]
  refine ⟨hsuppressed, ?_, ?_, ?_, fun preferred i => rfl, ?_⟩
  · intro key
    show key ∈ store.learning.rules.preferred ↔ _
    rw [hl, Learning.mem_preferred_learnAll]
  · intro i
    rw [← hsuppressed]
    exact rules.shows_eq_false_iff i
  · -- Without a reset the log only grows.
    intro more key hmore hkey
    have hrun : store.run more = (fresh st).run (calls ++ more) := (run_append _ _ _).symm
    rw [hrun, learning_run, Learning.mem_suppressed_learnAll, Call.sinceReset_append hmore]
    exact ((hsuppressed key).1 hkey).append _
  · exact rules.suppressed.exists_mem_patternKey_iff

/-- **What is kept of a log.** The history holds its newest thousand feedbacks. There is one pattern
for each key in the log, in the order of keys: it counts all feedback on the key, as far as 32 bits
go, and has the kind of the key and the reaction and the time of the last feedback. The counts are
those of the history. -/
theorem aggregates_by_log (st : Storage) (calls : List Call) :
    let l := ((fresh st).run calls).learning
    let log := Call.sinceReset calls
    (l.history = log.drop (log.length - 1000) ∧ l.history.length = min log.length 1000) ∧
    (l.patterns.Pairwise fun p q => p.patternKey < q.patternKey) ∧
    (∀ key, (∃ p ∈ l.patterns, p.patternKey = key) ↔ ∃ f ∈ log, f.patternKey = key) ∧
    (∀ p ∈ l.patterns,
      p.occurrences = min (about p.patternKey log).length (2 ^ 32 - 1) ∧
      (∃ f, (about p.patternKey log).getLast? = some f ∧ p.reaction = f.action.reaction ∧
        p.lastUpdated = f.time) ∧
      ∃ snippet, p.patternKey = patternKey p.kind snippet) ∧
    (l.stats.total = l.history.length ∧ l.stats.total ≤ 1000 ∧
      (∀ action, Stats.count action l.history =
        (l.history.filter fun f => f.action = action).length) ∧
      l.stats.accepted = Stats.count .accepted l.history ∧
      l.stats.dismissed = Stats.count .dismissed l.history ∧
      l.stats.modified = Stats.count .modified l.history ∧
      l.stats.accepted + l.stats.dismissed + l.stats.modified = l.stats.total) := by
  intro l log
  have hl : l = Learning.empty.learnAll log := learning_run st calls
  have hfiled : ∀ f ∈ log, ∃ snippet, f.patternKey = patternKey f.kind snippet :=
    fun f hf => patternKey_of_mem_sinceReset hf
  have hhistory : l.history = Learning.newest log := by rw [hl, Learning.history_learnAll]
  have hlength : l.history.length = min log.length 1000 := by
    rw [hhistory]
    exact Learning.length_newest log
  refine ⟨⟨hhistory, hlength⟩, ?_, ?_, ?_, rfl, ?_, ?_, rfl, rfl, rfl, Stats.count_add_count _⟩
  · rw [hl]
    exact Learning.increasing_patterns_learnAll log
  · intro key
    rw [hl]
    exact Learning.exists_mem_patterns_iff
  · intro p hp
    rw [hl] at hp
    obtain ⟨f, hlast, hkind, hreaction, htime, hcount⟩ :=
      (Learning.mem_patterns_iff_of_filed hfiled).1 hp
    obtain ⟨hmem, hkey⟩ := Learning.mem_about.1 (List.mem_of_getLast? hlast)
    obtain ⟨snippet, hs⟩ := hfiled f hmem
    refine ⟨hcount, ⟨f, hlast, hreaction, htime⟩, snippet, ?_⟩
    rw [hkind, ← hkey, hs]
  · show l.history.length ≤ 1000
    omega
  · intro action
    rw [Stats.count, List.countP_eq_length_filter]
    rfl

end FeedbackStore

end CodeCoach
