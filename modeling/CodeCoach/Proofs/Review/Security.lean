import CodeCoach.Proofs.Review.Order

/-!
# The issues of a line by their kind and severity

Each rule speaks of one kind of issue and with one severity, so the issues of a line that are of
some kinds and severities are those of some rules.  Critical issues about security come from one
rule of a family at most.

* `aboutSecurity`, `criticalSecurity`, the issues about security and the critical ones among them, and
  `bugs`, those about bugs;
* `filter_onLine_ofDocument`: the issues of some kinds and severities on a line;
* `Python.aboutSecurity_onLine`, `JavaScript.aboutSecurity_onLine` and their critical companions,
  `JavaScript.bugs_onLine`.
-/

namespace CodeCoach.Review

open Text

/-- The issues about security. -/
def aboutSecurity (issues : List Issue) : List Issue := issues.filter fun i => i.kind == .security

/-- The critical issues about security. -/
def criticalSecurity (issues : List Issue) : List Issue :=
  issues.filter fun i => i.kind == .security && i.severity == .critical

/-- The issues about bugs. -/
def bugs (issues : List Issue) : List Issue := issues.filter fun i => i.kind == .bug

variable {usesAsync testFile : Bool} {line : Line} {rest : List Line} {d : Document} {n : Nat}

/-- What a rule finds is all of its kind and severity. -/
theorem Rule.filter_findings (r : Rule) (p : Kind → Severity → Bool) :
    (r.findings usesAsync testFile line rest).filter (fun f => p f.kind f.severity) =
      if p r.kind r.severity then r.findings usesAsync testFile line rest else [] := by
  have hall : ∀ f ∈ r.findings usesAsync testFile line rest,
      p f.kind f.severity = p r.kind r.severity := by
    intro f hf
    obtain ⟨hkind, hseverity, -⟩ := utters_iff.1 (Rule.of_mem_findings hf).1
    rw [hkind, hseverity]
  split
  · rename_i hp
    exact List.filter_eq_self.2 fun f hf => (hall f hf).trans hp
  · rename_i hp
    exact List.filter_eq_nil_iff.2 fun f hf => hall f hf ▸ hp

/-- The issues of some kinds and severities on a line are those of the rules that speak so. -/
theorem filter_onLine_ofDocument {family : Family} (hfamily : Family.ofTag d.languageTag = family)
    (hline : (linesOf d.text)[n]? = some line) (hskips : family.skips line = false)
    (p : Kind → Severity → Bool) :
    (onLine (n + 1) (ofDocument d)).filter (fun i => p i.kind i.severity) =
      ((family.ruleOrder.filter fun r => p r.kind r.severity).flatMap
        (Rule.findings (JavaScript.usesAsync (linesOf d.text)) (JavaScript.isTestPath d.path) line
          ((linesOf d.text).drop (n + 1)))).map (·.at d.path n line) := by
  obtain ⟨hn, rfl⟩ := List.getElem?_eq_some_iff.1 hline
  rw [onLine_ofDocument (List.drop_eq_getElem_cons hn), hfamily, Family.ruleSet, hskips,
    if_neg Bool.false_ne_true, List.filter_map]
  refine congrArg _ (Eq.trans List.filter_flatMap ?_)
  induction family.ruleOrder with
  | nil => rfl
  | cons r order ih =>
    rw [List.flatMap_cons, ih, List.filter_cons]
    refine (congrArg (· ++ _) (r.filter_findings p)).trans ?_
    split <;> rfl

/-- A line of Python has no issues about security but those about interpolated queries. -/
theorem Python.aboutSecurity_onLine (hfamily : Family.ofTag d.languageTag = .python)
    (hline : (linesOf d.text)[n]? = some line) (hcomment : isComment line = false) :
    aboutSecurity (onLine (n + 1) (ofDocument d)) =
      (interpolatedSql line).toList.map (·.at d.path n line) :=
  (filter_onLine_ofDocument hfamily hline hcomment fun kind _ => kind == .security).trans
    (congrArg _ (List.append_nil _))

theorem Python.criticalSecurity_onLine (hfamily : Family.ofTag d.languageTag = .python)
    (hline : (linesOf d.text)[n]? = some line) (hcomment : isComment line = false) :
    criticalSecurity (onLine (n + 1) (ofDocument d)) =
      (interpolatedSql line).toList.map (·.at d.path n line) :=
  (filter_onLine_ofDocument hfamily hline hcomment fun kind severity =>
    kind == .security && severity == .critical).trans (congrArg _ (List.append_nil _))

/-- A line of JavaScript has no issues about security but those about a query and a sink. -/
theorem JavaScript.aboutSecurity_onLine (hfamily : Family.ofTag d.languageTag = .javaScript)
    (hline : (linesOf d.text)[n]? = some line) (hcomment : isComment (mask line) = false) :
    aboutSecurity (onLine (n + 1) (ofDocument d)) =
      ((concatenatedQuery line).toList ++ (dangerousSink line (mask line)).toList).map
        (·.at d.path n line) :=
  (filter_onLine_ofDocument hfamily hline hcomment fun kind _ => kind == .security).trans
    (congrArg _ (congrArg _ (List.append_nil _)))

theorem JavaScript.criticalSecurity_onLine (hfamily : Family.ofTag d.languageTag = .javaScript)
    (hline : (linesOf d.text)[n]? = some line) (hcomment : isComment (mask line) = false) :
    criticalSecurity (onLine (n + 1) (ofDocument d)) =
      (concatenatedQuery line).toList.map (·.at d.path n line) :=
  (filter_onLine_ofDocument hfamily hline hcomment fun kind severity =>
    kind == .security && severity == .critical).trans (congrArg _ (List.append_nil _))

/-- A line of JavaScript has no issues about bugs but that about a chain. -/
theorem JavaScript.bugs_onLine (hfamily : Family.ofTag d.languageTag = .javaScript)
    (hline : (linesOf d.text)[n]? = some line) (hcomment : isComment (mask line) = false) :
    bugs (onLine (n + 1) (ofDocument d)) =
      (unguardedAccess line (mask line)).toList.map (·.at d.path n line) :=
  (filter_onLine_ofDocument hfamily hline hcomment fun kind _ => kind == .bug).trans
    (congrArg _ (List.append_nil _))

end CodeCoach.Review
