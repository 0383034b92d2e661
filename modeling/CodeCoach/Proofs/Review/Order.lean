import CodeCoach.Proofs.Review.Rule
import CodeCoach.Proofs.Review.Tag

/-!
# The order of the issues

A review goes through a document line by line, and on each line the rules of the family speak one
after the other.

* `onLine`, the issues on one line of a review;
* `onLine_overLines`, `mem_overLines`, `pairwise_overLines`: what a rule set finds on the lines of a
  document, in the order of the lines;
* `Rule.faultyColumns`, the columns of the tags of a line that a rule objects to;
* `InRuleOrder`, the issues of a line in the order of the rules, with how often each rule speaks and
  what it shows of the line, and `Family.inRuleOrder`;
* `issues_in_order`: this holds of every line of every document.
-/

namespace CodeCoach.Review

open Text

/-- The issues on a line, which counts from one. -/
def onLine (n : Nat) (issues : List Issue) : List Issue := issues.filter fun i => i.location.line == n

section Lines

variable {rules : RuleSet} {path : String} {index : Nat} {lines : List Line} {i : Issue}

/-- Every issue is what the rules find on some line, given the lines after it. -/
theorem mem_overLines (h : i ∈ overLines rules path index lines) :
    ∃ before line rest, lines = before ++ line :: rest ∧
      ∃ f ∈ rules line rest, i = f.at path (index + before.length) line := by
  induction lines generalizing index with
  | nil => cases h
  | cons line rest ih =>
    rw [overLines_cons, List.mem_append] at h
    rcases h with h | h
    · obtain ⟨f, hf, rfl⟩ := List.mem_map.1 h
      exact ⟨[], line, rest, rfl, f, hf, rfl⟩
    · obtain ⟨before, line', rest', rfl, f, hf, rfl⟩ := ih h
      refine ⟨line :: before, line', rest', rfl, f, hf, ?_⟩
      rw [List.length_cons, Nat.add_assoc, Nat.add_comm 1]

theorem line_of_mem_overLines (h : i ∈ overLines rules path index lines) :
    index < i.location.line ∧ i.location.line ≤ index + lines.length := by
  obtain ⟨before, line, rest, rfl, f, -, rfl⟩ := mem_overLines h
  simp only [Finding.at, List.length_append, List.length_cons]
  omega

theorem path_of_mem_overLines (h : i ∈ overLines rules path index lines) :
    i.location.path = path := by
  obtain ⟨_, _, _, -, _, -, rfl⟩ := mem_overLines h
  rfl

theorem pairwise_overLines (rules : RuleSet) (path : String) (index : Nat) (lines : List Line) :
    (overLines rules path index lines).Pairwise fun i j => i.location.line ≤ j.location.line := by
  induction lines generalizing index with
  | nil => exact List.Pairwise.nil
  | cons line rest ih =>
    rw [overLines_cons, List.pairwise_append]
    refine ⟨List.pairwise_map.2 ?_, ih (index + 1), ?_⟩
    · exact List.pairwise_of_forall fun _ _ => Nat.le_refl _
    · intro i hi j hj
      obtain ⟨f, -, rfl⟩ := List.mem_map.1 hi
      exact Nat.le_of_lt (line_of_mem_overLines hj).1

theorem onLine_eq_nil {n : Nat} {issues : List Issue} (h : ∀ i ∈ issues, i.location.line ≠ n) :
    onLine n issues = [] :=
  List.filter_eq_nil_iff.2 fun i hi => by simpa using h i hi

theorem onLine_append (n : Nat) (a b : List Issue) : onLine n (a ++ b) = onLine n a ++ onLine n b :=
  List.filter_append ..

theorem onLine_map_at (path : String) (index : Nat) (line : Line) (n : Nat) (fs : List Finding) :
    onLine n (fs.map (·.at path index line)) =
      if index + 1 = n then fs.map (·.at path index line) else [] := by
  split
  · subst n
    refine List.filter_eq_self.2 fun i hi => ?_
    obtain ⟨f, -, rfl⟩ := List.mem_map.1 hi
    simp [Finding.at]
  · rename_i hne
    refine onLine_eq_nil fun i hi => ?_
    obtain ⟨f, -, rfl⟩ := List.mem_map.1 hi
    exact hne

/-- The issues on a line are what the rules find there. -/
theorem onLine_overLines (rules : RuleSet) (path : String) (index : Nat) (before : List Line)
    (line : Line) (rest : List Line) :
    onLine (index + before.length + 1) (overLines rules path index (before ++ line :: rest)) =
      (rules line rest).map (·.at path (index + before.length) line) := by
  induction before generalizing index with
  | nil =>
    have hlater : onLine (index + 1) (overLines rules path (index + 1) rest) = [] :=
      onLine_eq_nil fun i hi => by
        have := (line_of_mem_overLines hi).1
        omega
    rw [List.nil_append, overLines_cons, onLine_append, onLine_map_at]
    simp only [List.length_nil, Nat.add_zero, if_true, hlater, List.append_nil]
  | cons earlier before ih =>
    have hindex : index + (earlier :: before).length = index + 1 + before.length := by
      rw [List.length_cons]
      omega
    rw [List.cons_append, overLines_cons, onLine_append, onLine_map_at, hindex,
      if_neg (by omega), List.nil_append]
    exact ih (index + 1)

end Lines

/-! ### One line -/

/-- The tags that a rule speaks about one by one; the other rules speak once a line. -/
def Rule.tag? : Rule → Option TagForm
  | imageWithoutAlt => some Markup.image
  | namelessButton => some Markup.button
  | _ => none

/-- Whether a rule objects to the tag with which a text begins, given the lines after it. -/
def Rule.objects (rest : List Line) : Rule → List Char → Bool
  | imageWithoutAlt => Markup.lacksAlt
  | namelessButton => Markup.lacksName rest
  | _ => fun _ => false

/-- The columns of the tags of a line that a rule objects to. -/
def Rule.faultyColumns (r : Rule) (t : TagForm) (line : Line) (rest : List Line) : List Nat :=
  ((t.tags line).filter fun tag => r.objects rest tag.2).map fun tag => tag.1

theorem Rule.pairwise_faultyColumns (r : Rule) (t : TagForm) (line : Line) (rest : List Line) :
    (r.faultyColumns t line rest).Pairwise (· < ·) :=
  List.pairwise_map.2 ((t.pairwise_tags line).sublist List.filter_sublist)

/-- The issues of a line in the order of the rules of a family, given the lines after it. -/
structure InRuleOrder (family : Family) (line : Line) (rest : List Line) (here : List Issue) :
    Prop where
  /-- The issues are those of the first rule, those of the second, and so on. -/
  order : here = family.ruleOrder.flatMap fun r => here.filter r.reports
  once : ∀ r ∈ family.ruleOrder, r.tag? = none → (here.filter r.reports).length ≤ 1
  /-- A rule that speaks about tags does so once for each that it objects to, from left to right. -/
  tags : ∀ r ∈ family.ruleOrder, ∀ t ∈ r.tag?,
    (here.filter r.reports).map (·.location.column) = (r.faultyColumns t line rest).map some ∧
      (r.faultyColumns t line rest).Pairwise (· < ·)
  snippet : ∀ r ∈ family.ruleOrder, ∀ i ∈ here, r.reports i → i.snippet = r.snippet line

/-- Of rules that exclude each other, each has its own part of what they find in turn. -/
theorem filter_flatMap_of_excludes {order : List Rule} (hdistinct : order.Nodup)
    {parts : Rule → List Issue}
    (hparts : ∀ r ∈ order, ∀ i ∈ parts r, ∀ s ∈ order, s.reports i ↔ s = r) {s : Rule}
    (hs : s ∈ order) : (order.flatMap parts).filter s.reports = parts s := by
  have hpart : ∀ r ∈ order, (parts r).filter s.reports = if r = s then parts r else [] := by
    intro r hr
    split
    · subst r
      exact List.filter_eq_self.2 fun i hi => (hparts s hr i hi s hs).2 rfl
    · rename_i hne
      exact List.filter_eq_nil_iff.2 fun i hi hsi => hne ((hparts r hr i hi s hs).1 hsi).symm
  rw [List.filter_flatMap, List.flatMap_congr hpart]
  clear hparts hpart
  induction order with
  | nil => cases hs
  | cons r order ih =>
    obtain ⟨hr, hdistinct⟩ := List.nodup_cons.1 hdistinct
    rw [List.flatMap_cons]
    rcases List.mem_cons.1 hs with rfl | hs
    · have hnone : (order.flatMap fun r => if r = s then parts r else []) = [] :=
        List.flatMap_eq_nil_iff.2 fun t ht => if_neg fun h : t = s => hr (h ▸ ht)
      rw [if_pos rfl, hnone, List.append_nil]
    · rw [if_neg fun h : r = s => hr (h ▸ hs), List.nil_append]
      exact ih hdistinct hs

theorem Family.nodup_ruleOrder (family : Family) : family.ruleOrder.Nodup := by
  cases family <;> decide

theorem Rule.length_findings_le {r : Rule} (h : r.tag? = none) (usesAsync testFile : Bool)
    (line : Line) (rest : List Line) : (r.findings usesAsync testFile line rest).length ≤ 1 := by
  cases r with
  | imageWithoutAlt | namelessButton => cases h
  | _ => exact Option.length_toList_le

theorem Rule.columns_findings {r : Rule} {t : TagForm} (h : t ∈ r.tag?) (usesAsync testFile : Bool)
    (line : Line) (rest : List Line) :
    (r.findings usesAsync testFile line rest).map Finding.column =
      (r.faultyColumns t line rest).map some := by
  rw [faultyColumns, List.map_map]
  cases r with
  | imageWithoutAlt =>
    cases h
    exact Markup.columns_imageWithoutAlt line
  | namelessButton =>
    cases h
    exact Markup.columns_namelessButton line rest
  | _ => cases h

/-- In a family with rules about tags no line is passed over. -/
theorem Family.skips_of_tag {family : Family} {r : Rule} (hr : r ∈ family.ruleOrder) {t : TagForm}
    (h : t ∈ r.tag?) (line : Line) : family.skips line = false := by
  cases family with
  | markup | generic => rfl
  | javaScript | python => cases r <;> first | exact absurd hr (by decide) | cases h

/-- What the rules of a family find on a line comes in their order. -/
theorem Family.inRuleOrder (family : Family) (usesAsync testFile : Bool) (path : String)
    (index : Nat) (line : Line) (rest : List Line) :
    InRuleOrder family line rest
      ((family.ruleSet usesAsync testFile line rest).map (·.at path index line)) := by
  unfold Family.ruleSet
  split
  · -- Nothing is said about a comment.
    rename_i hskips
    refine ⟨by simp, fun _ _ _ => by simp, fun r hr t ht => ?_, by simp⟩
    rw [Family.skips_of_tag hr ht line] at hskips
    cases hskips
  let parts (r : Rule) : List Issue :=
    (r.findings usesAsync testFile line rest).map (·.at path index line)
  have hhere : (family.ruleOrder.flatMap (Rule.findings usesAsync testFile line rest)).map
      (·.at path index line) = family.ruleOrder.flatMap parts := List.map_flatMap ..
  have hreports : ∀ r, ∀ i ∈ parts r, r.reports i ∧ i.snippet = r.snippet line := by
    intro r i hi
    obtain ⟨f, hf, rfl⟩ := List.mem_map.1 hi
    obtain ⟨hvoices, hsnippet, -⟩ := Rule.of_mem_findings hf
    exact ⟨hvoices, hsnippet⟩
  have hpart : ∀ s ∈ family.ruleOrder,
      (family.ruleOrder.flatMap parts).filter s.reports = parts s := fun s hs =>
    filter_flatMap_of_excludes family.nodup_ruleOrder
      (fun r hr i hi s hs => ⟨fun hsi => family.eq_of_reports hs hr hsi (hreports r i hi).1,
        fun h => h ▸ (hreports r i hi).1⟩) hs
  rw [hhere]
  constructor
  case order => exact List.flatMap_congr fun r hr => (hpart r hr).symm
  case once =>
    intro r hr htag
    rw [hpart r hr, List.length_map]
    exact Rule.length_findings_le htag _ _ _ _
  case tags =>
    intro r hr t ht
    refine ⟨?_, r.pairwise_faultyColumns t line rest⟩
    rw [hpart r hr, ← Rule.columns_findings ht usesAsync testFile line rest, List.map_map]
    rfl
  case snippet =>
    intro r hr i hi hri
    have hi : i ∈ (family.ruleOrder.flatMap parts).filter r.reports :=
      List.mem_filter.2 ⟨hi, hri⟩
    rw [hpart r hr] at hi
    exact (hreports r i hi).2

/-! ### A document -/

/-- The issues of a document on a line. -/
theorem onLine_ofDocument {d : Document} {n : Nat} {line : Line} {rest : List Line}
    (h : (linesOf d.text).drop n = line :: rest) :
    onLine (n + 1) (ofDocument d) =
      ((Family.ofTag d.languageTag).ruleSet (JavaScript.usesAsync (linesOf d.text))
        (JavaScript.isTestPath d.path) line rest).map (·.at d.path n line) := by
  have hsplit : linesOf d.text = (linesOf d.text).take n ++ line :: rest := by
    rw [← h, List.take_append_drop]
  have hn : n < (linesOf d.text).length := by
    by_contra hn
    rw [List.drop_eq_nil_of_le (by omega)] at h
    cases h
  have hlength : ((linesOf d.text).take n).length = n := by
    rw [List.length_take]
    omega
  have hhere := onLine_overLines ((Family.ofTag d.languageTag).ruleSet
    (JavaScript.usesAsync (linesOf d.text)) (JavaScript.isTestPath d.path)) d.path 0
    ((linesOf d.text).take n) line rest
  rw [← hsplit, hlength, Nat.zero_add] at hhere
  rw [ofDocument, Family.issues_eq, hhere]

/-- Every issue of a document is what some rule finds on one of its lines. -/
theorem exists_finding {d : Document} {i : Issue} (h : i ∈ ofDocument d) :
    ∃ n line, (linesOf d.text)[n]? = some line ∧
      ∃ r ∈ (Family.ofTag d.languageTag).ruleOrder,
        ∃ f ∈ r.findings (JavaScript.usesAsync (linesOf d.text)) (JavaScript.isTestPath d.path) line
          ((linesOf d.text).drop (n + 1)), i = f.at d.path n line := by
  rw [ofDocument, Family.issues_eq] at h
  obtain ⟨before, line, rest, hlines, f, hf, rfl⟩ := mem_overLines h
  rw [Family.ruleSet] at hf
  split at hf
  · cases hf
  · obtain ⟨r, hr, hf⟩ := List.mem_flatMap.1 hf
    have hrest : (linesOf d.text).drop (before.length + 1) = rest := by
      rw [hlines, List.drop_append, List.drop_of_length_le (Nat.le_succ _), Nat.add_sub_cancel_left]
      rfl
    refine ⟨before.length, line, by rw [hlines]; simp, r, hr, f, hrest.symm ▸ hf, ?_⟩
    rw [Nat.zero_add]

/-- An issue that has the form of those of a rule is what this rule finds. -/
theorem exists_finding_of_reports {d : Document} {family : Family}
    (hfamily : Family.ofTag d.languageTag = family) {r : Rule} (hr : r ∈ family.ruleOrder) {i : Issue}
    (h : i ∈ ofDocument d) (hreports : r.reports i) :
    ∃ n line, (linesOf d.text)[n]? = some line ∧
      ∃ f ∈ r.findings (JavaScript.usesAsync (linesOf d.text)) (JavaScript.isTestPath d.path) line
        ((linesOf d.text).drop (n + 1)), i = f.at d.path n line := by
  obtain ⟨n, line, hline, s, hs, f, hf, rfl⟩ := exists_finding h
  have hvoices : s.reports (f.at d.path n line) := (Rule.of_mem_findings hf).1
  obtain rfl : s = r := Family.eq_of_reports (hfamily ▸ hs) hr hvoices hreports
  exact ⟨n, line, hline, f, hf, rfl⟩

theorem onLine_of_drop_eq_nil {d : Document} {n : Nat} (h : (linesOf d.text).drop n = []) :
    onLine (n + 1) (ofDocument d) = [] := by
  refine onLine_eq_nil fun i hi => ?_
  rw [ofDocument, Family.issues_eq] at hi
  have := (line_of_mem_overLines hi).2
  have := List.drop_eq_nil_iff.1 h
  omega

/-- The issues of a document come line by line, and on each line rule by rule. -/
theorem issues_in_order (d : Document) :
    (∀ i ∈ ofDocument d, i.location.path = d.path ∧ 1 ≤ i.location.line ∧
      i.location.line ≤ (linesOf d.text).length) ∧
    (ofDocument d).Pairwise (fun i j => i.location.line ≤ j.location.line) ∧
    ∀ n line, (linesOf d.text)[n]? = some line →
      InRuleOrder (Family.ofTag d.languageTag) line ((linesOf d.text).drop (n + 1))
        (onLine (n + 1) (ofDocument d)) := by
  have hissues := (Family.ofTag d.languageTag).issues_eq d.path (linesOf d.text)
  refine ⟨?_, ?_, ?_⟩
  · intro i hi
    rw [ofDocument, hissues] at hi
    have hline := line_of_mem_overLines hi
    refine ⟨path_of_mem_overLines hi, by omega, by omega⟩
  · rw [ofDocument, hissues]
    exact pairwise_overLines ..
  · intro n line hline
    obtain ⟨hn, rfl⟩ := List.getElem?_eq_some_iff.1 hline
    rw [onLine_ofDocument (List.drop_eq_getElem_cons hn)]
    exact Family.inRuleOrder ..

end CodeCoach.Review
