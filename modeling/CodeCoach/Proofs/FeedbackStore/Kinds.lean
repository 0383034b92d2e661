import CodeCoach.Proofs.FeedbackStore.Learned
import CodeCoach.Proofs.Learning.Streams
import CodeCoach.Proofs.Wire.Learning

/-!
# What a store has learned of one kind

Feedback on the issues of one kind moves the sensitivity to that kind alone, and the patterns of the
kind.

* `sensitivity_by_log`: the sensitivity to a kind, read off the log in whole hundredths, and what is
  hidden for it; after one feedback it is in bounds, whatever was loaded;
* `learns_by_kind`: how the feedback on different kinds is mixed makes no difference.
-/

namespace CodeCoach

/-! ### One sensitivity -/

namespace Sensitivity

theorem isNaN_of_inBounds {x : Float} (h : InBounds x) : x.isNaN = false := isNaN_of_le h.1

/-- Some feedback leads from any number, or none, into the bounds. -/
theorem inBounds_foldl {known : Option Float} (h : ∀ x ∈ known, x.isNaN = false)
    {fs : List Feedback} (hfs : fs ≠ []) :
    ∃ x, fs.foldl (fun known f => some (after known f.action)) known = some x ∧ InBounds x := by
  induction fs using List.reverseRecOn with
  | nil => exact absurd rfl hfs
  | append_singleton fs f ih =>
    rw [List.foldl_append]
    refine ⟨_, rfl, inBounds_after ?_ f.action⟩
    cases fs with
    | nil => exact h
    | cons g fs =>
      obtain ⟨x, hx, hbounds⟩ := ih (List.cons_ne_nil g fs)
      rw [hx]
      rintro y ⟨⟩
      exact isNaN_of_inBounds hbounds

theorem lt_cutoff_iff : ∀ h ∈ grid, hundredths h < cutoff ↔ h < 50 := by decide +kernel

end Sensitivity

namespace Learning

theorem actionsOn_eq_nil_iff {kind : Kind} {fs : List Feedback} :
    actionsOn kind fs = [] ↔ ¬ ∃ f ∈ fs, f.kind = kind := by
  simp [actionsOn]

/-- The sensitivity that counts is that of the log also where there was no feedback on the kind. -/
theorem sensitivityTo_learnAll (fs : List Feedback) (kind : Kind) :
    (empty.learnAll fs).rules.sensitivityTo kind =
      Sensitivity.hundredths ((actionsOn kind fs).foldl Sensitivity.stepHundredths 100) := by
  rw [Rules.sensitivityTo, sensitivity_learnAll]
  cases actionsOn kind fs with
  | nil => exact Sensitivity.initial_eq
  | cons a actions => rfl

/-- Issues of a kind that are not critical and not suppressed are hidden by the sensitivity alone. -/
theorem shows_learnAll_eq_false_iff {fs : List Feedback} {i : Issue}
    (hsevere : i.severity ≠ .critical)
    (hkey : i.patternKey ∉ (empty.learnAll fs).rules.suppressed) :
    (empty.learnAll fs).shows i = false ↔
      (actionsOn i.kind fs).foldl Sensitivity.stepHundredths 100 < 50 := by
  have hlow : (empty.learnAll fs).rules.sensitivityTo i.kind < Sensitivity.cutoff ↔
      (actionsOn i.kind fs).foldl Sensitivity.stepHundredths 100 < 50 := by
    rw [sensitivityTo_learnAll]
    exact Sensitivity.lt_cutoff_iff _ (Sensitivity.foldl_mem_grid _)
  rw [← hlow]
  refine (Rules.shows_eq_false_iff _ i).trans ⟨?_, fun hlow => Or.inr ⟨hsevere, hlow⟩⟩
  rintro (hmem | ⟨-, hlow⟩)
  · exact absurd hmem hkey
  · exact hlow

end Learning

namespace FeedbackStore

/-- The rules that a storage holds have numbers as sensitivities, where it holds proper values. -/
theorem isNaN_sensitivity_stored {s : Storage} (h : ∀ j, s.get? rulesKey = .ok (some j) → j.Bounded)
    {kind : Kind} : ∀ x ∈ (stored s).rules.sensitivity.get kind, x.isNaN = false := by
  have hempty : ∀ x ∈ Rules.empty.sensitivity.get kind, x.isNaN = false := by
    simp [Rules.empty]
  simp only [stored, readOr]
  split
  · next j hj =>
    cases hrules : Rules.ofJson? j with
    | none => exact hempty
    | some rules =>
      exact fun x hx => isNaN_of_isFinite (Rules.gives_ofJson? j rules (h j hj) hrules kind x hx)
  · exact hempty

/-- After feedback on a kind, the sensitivity to it is in bounds, whatever number a storage held. -/
theorem inBounds_load_run {loaded : Storage} {calls : List Call} {kind : Kind}
    (hloaded : ∀ j, loaded.get? rulesKey = .ok (some j) → j.Bounded)
    (hcalls : ∃ f ∈ Call.sinceReset calls, f.kind = kind) :
    ∃ x, ((load loaded).run calls).learning.rules.sensitivity.get kind = some x ∧
      Sensitivity.InBounds x := by
  obtain ⟨f, hf, rfl⟩ := hcalls
  rw [learning_run_from, Learning.sensitivity_learnAll_get]
  -- The feedback begins with what was loaded, or with nothing after a reset.
  refine Sensitivity.inBounds_foldl ?_ (List.ne_nil_of_mem (List.mem_filter.2 ⟨hf, by simp⟩))
  split
  · simp [Learning.empty, Rules.empty]
  · exact isNaN_sensitivity_stored hloaded

/-- **The sensitivity to a kind.** There is one exactly when there was feedback on the kind, and it
is a whole number of hundredths: it begins with one hundred and goes with the actions on the kind,
ten down with a dismissal, five up with an acceptance, from thirty to one hundred.  It is written as
that decimal.  Issues of the kind that are not critical and not suppressed are hidden exactly while
it is below fifty.  Feedback on another kind never moves it.  Whatever number a storage held for the
kind, after one feedback on the kind it is in bounds. -/
theorem sensitivity_by_log (st : Storage) (calls : List Call) (kind : Kind) :
    let store := (fresh st).run calls
    let log := Call.sinceReset calls
    let known := store.learning.rules.sensitivity.get kind
    let h := (Learning.actionsOn kind log).foldl Sensitivity.stepHundredths 100
    (known.isSome ↔ ∃ f ∈ log, f.kind = kind) ∧
    (∀ x ∈ known, x = Sensitivity.hundredths h ∧
      Json.floatChars x = Decimal.natChars (h / 100) ++ '.' :: Sensitivity.fractionDigits h ∧
      0.3 ≤ x ∧ x ≤ 1.0) ∧
    (30 ≤ h ∧ h ≤ 100 ∧ h % 5 = 0) ∧
    (∀ i, i.kind = kind → i.severity ≠ .critical → i.patternKey ∉ store.learning.rules.suppressed →
      (store.learning.shows i = false ↔ h < 50)) ∧
    (∀ (s : FeedbackStore) (f : Feedback), f.kind ≠ kind →
      (s.record f).2.learning.rules.sensitivity.get kind = s.learning.rules.sensitivity.get kind) ∧
    (∀ loaded more, (∀ j, loaded.get? rulesKey = .ok (some j) → j.Bounded) →
      (∃ f ∈ Call.sinceReset more, f.kind = kind) →
      ∃ x, ((load loaded).run more).learning.rules.sensitivity.get kind = some x ∧
        0.3 ≤ x ∧ x ≤ 1.0) := by
  intro store log known h
  have hl : store.learning = Learning.empty.learnAll log := learning_run st calls
  have hgrid : h ∈ Sensitivity.grid := Sensitivity.foldl_mem_grid _
  have hknown : known = (Sensitivity.ofActions? (Learning.actionsOn kind log)).map
      Sensitivity.hundredths := by
    show store.learning.rules.sensitivity.get kind = _
    rw [hl, Learning.sensitivity_learnAll]
  refine ⟨?_, ?_, Sensitivity.mem_grid.1 hgrid, ?_, ?_, ?_⟩
  · rw [hknown, Option.isSome_map, ← not_iff_not, ← Learning.actionsOn_eq_nil_iff]
    simp [Sensitivity.ofActions?]
  · intro x hx
    have hx : x = Sensitivity.hundredths h := by
      rw [hknown, Option.mem_map] at hx
      obtain ⟨n, hn, rfl⟩ := hx
      rw [Sensitivity.ofActions?, Option.mem_def, Option.ite_none_left_eq_some] at hn
      exact congrArg Sensitivity.hundredths (Option.some.inj hn.2).symm
    subst hx
    exact ⟨rfl, Sensitivity.floatChars_hundredths h hgrid, Sensitivity.inBounds_hundredths h hgrid⟩
  · rintro i rfl hsevere hkey
    rw [hl] at hkey ⊢
    exact Learning.shows_learnAll_eq_false_iff hsevere hkey
  · intro s f hf
    rw [learning_record, Learning.sensitivity_learn, if_neg (by simpa using hf)]
  · exact fun loaded more hloaded hmore => inBounds_load_run hloaded hmore

/-- A storage holds a number far out of bounds; the next feedback on the kind brings it back. -/
theorem sensitivity_by_log_strayNumber :
    let rules : Json := .obj [("sensitivity_by_kind", .obj [("style", .float (-7.5))])]
    let loaded : Storage := ⟨.empty [], .memory (Table.empty.set rulesKey rules) .none⟩
    let style : Intervention :=
      .create "a" .supportive ⟨"a.txt", 1, none, .style, .info, "", none, "x"⟩ ⟨0, 0⟩
    (load loaded).learning.rules.sensitivity.get .style = some (-7.5) ∧
      ∃ x, ((load loaded).run [.record style .modified none ⟨0, 0⟩]).learning.rules.sensitivity.get
        .style = some x ∧ 0.3 ≤ x ∧ x ≤ 1.0 := by
  intro rules loaded style
  have hbounded : rules.Bounded := by
    refine .obj fun f hf => ?_
    obtain rfl := List.mem_singleton.1 hf
    refine .obj fun g hg => ?_
    obtain rfl := List.mem_singleton.1 hg
    exact .float (by decide +kernel)
  have hloaded : ∀ j, loaded.get? rulesKey = .ok (some j) → j.Bounded := by
    rintro j ⟨⟩
    exact hbounded
  obtain ⟨-, -, -, -, -, h⟩ :=
    sensitivity_by_log ⟨.empty [], .memory .empty .none⟩ [] .style
  exact ⟨by decide +kernel, h loaded _ hloaded ⟨_, List.mem_singleton_self _, rfl⟩⟩

/-! ### Kinds that are mixed -/

/-- Patterns are in order in every store that was loaded, whatever it was asked since. -/
theorem increasing_patterns_run (st : Storage) (calls : List Call) :
    Sorted.Increasing LearnedPattern.patternKey ((load st).run calls).learning.patterns := by
  rw [learning_run_from]
  refine Learning.increasing_patterns_learnAll_of ?_ _
  split
  · exact Sorted.increasing_nil _
  · exact Sorted.increasing_ofList _ _

theorem learning_run_of_not_reset (s : FeedbackStore) {calls : List Call}
    (h : ∀ c ∈ calls, c.isReset = false) :
    (s.run calls).learning = s.learning.learnAll (Call.sinceReset calls) := by
  rw [learning_run_from, if_neg]
  simpa using h

/-- **Only the order within each kind counts.** In any state that a store gets into, calls with the
same feedback on each kind in the same order lead to the same patterns and rules, so the same issues
are shown.  As long as the history keeps all of it, the counts are the same, and the histories
differ in their order alone. -/
theorem learns_by_kind (st : Storage) (before calls calls' : List Call)
    (hcalls : ∀ c ∈ calls, c.isReset = false) (hcalls' : ∀ c ∈ calls', c.isReset = false)
    (hsame : Learning.SameStreams (Call.sinceReset calls) (Call.sinceReset calls')) :
    let s := (load st).run before
    let l := (s.run calls).learning
    let l' := (s.run calls').learning
    l.patterns = l'.patterns ∧ l.rules = l'.rules ∧ (∀ i, l.shows i = l'.shows i) ∧
    (s.learning.history.length + (Call.sinceReset calls).length ≤ 1000 →
      l.stats = l'.stats ∧ l.history.Perm l'.history) := by
  intro s l l'
  have hl : l = s.learning.learnAll (Call.sinceReset calls) := learning_run_of_not_reset s hcalls
  have hl' : l' = s.learning.learnAll (Call.sinceReset calls') :=
    learning_run_of_not_reset s hcalls'
  have habout := hsame.about_eq (fun f hf => patternKey_of_mem_sinceReset hf)
    (fun f hf => patternKey_of_mem_sinceReset hf)
  have hpatterns : l.patterns = l'.patterns := by
    rw [hl, hl']
    exact Learning.patterns_learnAll_congr (increasing_patterns_run st before) habout
  have hrules : l.rules = l'.rules := by
    rw [hl, hl']
    exact Learning.rules_learnAll_congr habout hsame
  refine ⟨hpatterns, hrules, fun i => ?_, fun hlength => ?_⟩
  · simp only [Learning.shows, hrules]
  · have hhistory : l.history.Perm l'.history := by
      rw [hl, hl', Learning.history_learnAll_of_le hlength,
        Learning.history_learnAll_of_le (hsame.perm.length_eq ▸ hlength)]
      exact hsame.perm.append_left _
    exact ⟨Stats.ofHistory_perm hhistory, hhistory⟩

/-- The third dismissal of a bug wearies it, before or after a style is accepted. -/
theorem learns_by_kind_exchanged :
    let bug : Intervention :=
      .create "a" .supportive ⟨"a.txt", 1, none, .bug, .warning, "", none, "x"⟩ ⟨0, 0⟩
    let style : Intervention :=
      .create "b" .supportive ⟨"a.txt", 2, none, .style, .info, "", none, "y"⟩ ⟨0, 0⟩
    let before : List Call :=
      [.record bug .dismissed none ⟨0, 0⟩, .record bug .modified none ⟨1, 0⟩]
    let calls : List Call :=
      [.record bug .dismissed none ⟨2, 0⟩, .record style .accepted none ⟨2, 0⟩]
    let s := (load ⟨.empty [], .memory .empty .none⟩).run before
    let l := (s.run calls).learning
    let l' := (s.run calls.reverse).learning
    l.rules.suppressed.contains "bug:x" = true ∧ l.history ≠ l'.history ∧
      l.patterns = l'.patterns ∧ l.rules = l'.rules ∧ l.stats = l'.stats ∧
      l.history.Perm l'.history := by
  intro bug style before calls s l l'
  have hstreams : Learning.SameStreams (Call.sinceReset calls) (Call.sinceReset calls.reverse) := by
    intro kind
    cases kind <;> decide
  obtain ⟨hpatterns, hrules, -, hkept⟩ := learns_by_kind ⟨.empty [], .memory .empty .none⟩ before
    calls calls.reverse (by decide) (by decide) hstreams
  exact ⟨by decide +kernel, by decide +kernel, hpatterns, hrules, hkept (by decide +kernel)⟩

end FeedbackStore

end CodeCoach
