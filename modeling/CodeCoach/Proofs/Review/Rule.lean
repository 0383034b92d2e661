import CodeCoach.Review
import Mathlib.Data.List.Pairwise

/-!
# The rules one by one

A review speaks with the voices of fourteen rules.  Here each has a name, and an issue tells by its
kind, its severity and the wording of its message which rule of a family it comes from.

* `Rule`, `Family.ruleOrder`, the rules of each family in the order in which they speak;
* `Rule.reports`, whether an issue has the form of those of a rule, and `Rule.snippet`, what such an
  issue shows of its line;
* `Rule.findings`, what a rule finds on a line, and `Family.ruleSet_eq`: the rules of a family speak
  one after the other;
* `Family.eq_of_reports`: no issue has the form of two rules of one family.
-/

namespace CodeCoach.Review

open Text

/-- A rule of some family. -/
inductive Rule
  | unguardedAccess
  | concatenatedQuery
  | dangerousSink
  | debugLogging
  | nestedLoop
  | promiseChain
  | interpolatedSql
  | bareExcept
  | unannotatedDefinition
  | imageWithoutAlt
  | namelessButton
  | inlineStyle
  | debtMarker
  | overlongLine
  deriving DecidableEq, Repr

/-- The rules of a family in the order in which they speak on a line. -/
def Family.ruleOrder : Family → List Rule
  | javaScript => [.unguardedAccess, .concatenatedQuery, .dangerousSink, .debugLogging, .nestedLoop,
      .promiseChain]
  | python => [.interpolatedSql, .bareExcept, .unannotatedDefinition]
  | markup => [.imageWithoutAlt, .namelessButton, .inlineStyle]
  | generic => [.debtMarker, .overlongLine]

/-! ### The form of the issues -/

/-- The wording of a message: a fixed text, or a text before and one after what was found. -/
inductive Wording
  | plain (text : String)
  | around (before after : String)

/-- Whether a message has the wording. -/
def Wording.fits : Wording → String → Bool
  | plain text, message => message == text
  | around before after, message =>
    before.toList.isPrefixOf message.toList && after.toList.isSuffixOf message.toList

/-- Whether two wordings are those of different fixed texts. -/
def Wording.differs : Wording → Wording → Bool
  | plain s, plain t => s != t
  | _, _ => false

namespace Wording

theorem differs_comm (v w : Wording) : v.differs w = w.differs v := by
  cases v <;> cases w <;> simp only [differs, bne_comm]

theorem not_fits_of_differs {v w : Wording} (h : v.differs w) {message : String}
    (hv : v.fits message) : ¬ w.fits message := by
  cases v <;> cases w <;> simp_all [differs, fits]

theorem fits_plain (text : String) : (plain text).fits text := by simp [fits]

theorem fits_around (before found after : String) :
    (around before after).fits (before ++ found ++ after) := by
  simp only [fits, Bool.and_eq_true, List.isPrefixOf_iff_prefix, List.isSuffixOf_iff_suffix,
    String.toList_append, List.append_assoc]
  exact ⟨List.prefix_append _ _, ⟨_, List.append_assoc _ _ _⟩⟩

end Wording

namespace Rule

def kind : Rule → Kind
  | unguardedAccess | bareExcept => .bug
  | concatenatedQuery | dangerousSink | interpolatedSql => .security
  | nestedLoop => .performance
  | debugLogging | promiseChain | unannotatedDefinition | inlineStyle | overlongLine => .style
  | imageWithoutAlt | namelessButton => .accessibility
  | debtMarker => .codeSmell

def severity : Rule → Severity
  | concatenatedQuery | interpolatedSql => .critical
  | unguardedAccess | dangerousSink | nestedLoop | bareExcept | imageWithoutAlt => .warning
  | debugLogging | promiseChain | unannotatedDefinition | namelessButton | inlineStyle
  | debtMarker | overlongLine => .info

def wording : Rule → Wording
  | unguardedAccess =>
    .around "Unguarded property access `" "` may throw if a link is null or undefined"
  | concatenatedQuery => .plain "Possible SQL injection: query built by string concatenation"
  | dangerousSink => .around "Dangerous sink `" "` can execute injected content"
  | debugLogging => .plain "Debug logging left in production code"
  | nestedLoop => .plain "Nested loop detected: O(n²) work as inputs grow"
  | promiseChain => .plain "Promise chain in a file that never uses async/await"
  | interpolatedSql => .plain "SQL built with string interpolation is passed to execute()"
  | bareExcept => .plain "Bare `except:` also catches SystemExit and KeyboardInterrupt"
  | unannotatedDefinition => .around "Function `" "` has no return type annotation"
  | imageWithoutAlt => .plain "Image is missing alt text for screen readers"
  | namelessButton => .plain "Button has no accessible name"
  | inlineStyle => .plain "Inline style attribute"
  | debtMarker => .around "" " marker left in code"
  | overlongLine => .around "Line is " " characters long (limit 120)"

/-- What the issues of a rule show of a line: the line without the blanks around it, of which an
overlong line keeps the first hundred characters. -/
def snippet (r : Rule) (line : Line) : String :=
  match r with
  | overlongLine => String.ofList ((trim line).take 100) ++ "..."
  | _ => String.ofList (trim line)

/-- Whether such a thing is said by the rule. -/
def utters (r : Rule) (kind : Kind) (severity : Severity) (message : String) : Bool :=
  kind == r.kind && severity == r.severity && r.wording.fits message

/-- Whether an issue has the form of those of the rule. -/
def reports (r : Rule) (i : Issue) : Bool := r.utters i.kind i.severity i.message

/-- Whether a finding has the form of those of the rule. -/
def voices (r : Rule) (f : Finding) : Bool := r.utters f.kind f.severity f.message

@[simp] theorem reports_at (r : Rule) (f : Finding) (path : String) (index : Nat) (line : Line) :
    r.reports (f.at path index line) = r.voices f := rfl

theorem utters_iff {r : Rule} {kind : Kind} {severity : Severity} {message : String} :
    r.utters kind severity message ↔
      kind = r.kind ∧ severity = r.severity ∧ r.wording.fits message := by
  simp [utters, and_assoc]

/-- The forms of two rules exclude each other. -/
def Excludes (r s : Rule) : Prop :=
  r.kind ≠ s.kind ∨ r.severity ≠ s.severity ∨ r.wording.differs s.wording

instance (r s : Rule) : Decidable (r.Excludes s) :=
  inferInstanceAs (Decidable (_ ∨ _ ∨ _))

theorem Excludes.symm {r s : Rule} (h : r.Excludes s) : s.Excludes r := by
  rcases h with h | h | h
  · exact .inl h.symm
  · exact .inr (.inl h.symm)
  · exact .inr (.inr (Wording.differs_comm _ _ ▸ h))

theorem Excludes.not_reports {r s : Rule} (h : r.Excludes s) {i : Issue} (hr : r.reports i) :
    ¬ s.reports i := by
  intro hs
  obtain ⟨hkind, hseverity, hfits⟩ := utters_iff.1 hr
  obtain ⟨hkind', hseverity', hfits'⟩ := utters_iff.1 hs
  rcases h with h | h | h
  · exact h (hkind.symm.trans hkind')
  · exact h (hseverity.symm.trans hseverity')
  · exact Wording.not_fits_of_differs h hfits hfits'

end Rule

theorem Family.pairwise_ruleOrder (family : Family) : family.ruleOrder.Pairwise Rule.Excludes := by
  cases family <;> decide +kernel

/-- No issue has the form of two rules of one family. -/
theorem Family.eq_of_reports {family : Family} {r s : Rule} (hr : r ∈ family.ruleOrder)
    (hs : s ∈ family.ruleOrder) {i : Issue} (hri : r.reports i) (hsi : s.reports i) : r = s := by
  by_contra hne
  have : Std.Symm Rule.Excludes := ⟨fun _ _ => Rule.Excludes.symm⟩
  exact (family.pairwise_ruleOrder.forall hr hs hne).not_reports hri hsi

/-! ### What the rules find -/

/-- Whether a family passes over a line because it is a comment. -/
def Family.skips : Family → Line → Bool
  | javaScript, line => JavaScript.isComment (mask line)
  | python, line => Python.isComment line
  | markup, _ | generic, _ => false

/-- What a rule finds on a line, given the lines after it. -/
def Rule.findings (usesAsync testFile : Bool) (line : Line) (rest : List Line) :
    Rule → List Finding
  | unguardedAccess => (JavaScript.unguardedAccess line (mask line)).toList
  | concatenatedQuery => (JavaScript.concatenatedQuery line).toList
  | dangerousSink => (JavaScript.dangerousSink line (mask line)).toList
  | debugLogging => (JavaScript.debugLogging testFile line (mask line)).toList
  | nestedLoop => (JavaScript.nestedLoop (mask line) rest).toList
  | promiseChain => (JavaScript.promiseWithoutAsync usesAsync (mask line)).toList
  | interpolatedSql => (Python.interpolatedSql line).toList
  | bareExcept => (Python.uncheckedExcept line).toList
  | unannotatedDefinition => (Python.unannotatedDefinition line).toList
  | imageWithoutAlt =>
    (Markup.imageTag.findAll line).filterMap (Markup.imageWithoutAlt line)
  | namelessButton =>
    (Markup.buttonOpen.findAll line).filterMap (Markup.namelessButton line rest)
  | inlineStyle => (Markup.styleAttribute line).toList
  | debtMarker => (Generic.markedDebt line).toList
  | overlongLine => (Generic.overlong line).toList

/-- The rules of a family as one. -/
def Family.ruleSet (family : Family) (usesAsync testFile : Bool) : RuleSet := fun line rest =>
  if family.skips line then []
  else family.ruleOrder.flatMap (Rule.findings usesAsync testFile line rest)

theorem Family.issues_eq (family : Family) (path : String) (lines : List Line) :
    family.issues path lines =
      overLines (family.ruleSet (JavaScript.usesAsync lines) (JavaScript.isTestPath path)) path 0
        lines := by
  cases family <;>
  · refine congrArg (overLines · path 0 lines) (funext fun line => funext fun rest => ?_)
    simp only [JavaScript.rules, Python.rules, Markup.rules, Generic.rules, ruleSet, skips,
      ruleOrder, Rule.findings, List.flatMap_cons, List.flatMap_nil, List.append_nil,
      List.append_assoc, Bool.false_eq_true, if_false]

theorem mem_of_if {c : Prop} [Decidable c] {f g : Finding}
    (h : f ∈ (if c then some g else none).toList) : c ∧ f = g := by
  split at h
  · simp_all
  · simp at h

theorem mem_of_else {c : Prop} [Decidable c] {f g : Finding}
    (h : f ∈ (if c then none else some g).toList) : ¬ c ∧ f = g := by
  split at h
  · simp at h
  · simp_all

/-- A rule finds what has its form, shows what it should of the line, and knows a remedy. -/
theorem Rule.of_mem_findings {r : Rule} {usesAsync testFile : Bool} {line : Line}
    {rest : List Line} {f : Finding} (h : f ∈ r.findings usesAsync testFile line rest) :
    r.voices f ∧ f.snippet.getD (String.ofList (trim line)) = r.snippet line ∧ f.remedy.isSome := by
  cases r with
  | unguardedAccess =>
    obtain ⟨m, -, rfl⟩ := Option.map_eq_some_iff.1 (Option.mem_toList.1 h)
    exact ⟨utters_iff.2 ⟨rfl, rfl, Wording.fits_around _ _ _⟩, rfl, rfl⟩
  | dangerousSink =>
    obtain ⟨⟨pattern, sink, remedy⟩, -, hsink⟩ :=
      List.exists_of_findSome?_eq_some (Option.mem_toList.1 h)
    obtain ⟨m, -, rfl⟩ := Option.map_eq_some_iff.1 hsink
    exact ⟨utters_iff.2 ⟨rfl, rfl, Wording.fits_around _ _ _⟩, rfl, rfl⟩
  | debugLogging =>
    cases testFile with
    | true => cases h
    | false =>
      obtain ⟨m, -, rfl⟩ := Option.map_eq_some_iff.1 (Option.mem_toList.1 h)
      exact ⟨utters_iff.2 ⟨rfl, rfl, Wording.fits_plain _⟩, rfl, rfl⟩
  | concatenatedQuery | nestedLoop | promiseChain | interpolatedSql | bareExcept =>
    obtain ⟨-, rfl⟩ := mem_of_if h
    exact ⟨utters_iff.2 ⟨rfl, rfl, Wording.fits_plain _⟩, rfl, rfl⟩
  | unannotatedDefinition =>
    obtain ⟨name, -, rfl⟩ := Option.map_eq_some_iff.1 (Option.mem_toList.1 h)
    exact ⟨utters_iff.2 ⟨rfl, rfl, Wording.fits_around _ _ _⟩, rfl, rfl⟩
  | imageWithoutAlt =>
    obtain ⟨m, -, hm⟩ := List.mem_filterMap.1 h
    obtain ⟨-, rfl⟩ := mem_of_else (Option.mem_toList.2 hm)
    exact ⟨utters_iff.2 ⟨rfl, rfl, Wording.fits_plain _⟩, rfl, rfl⟩
  | namelessButton =>
    obtain ⟨m, -, hm⟩ := List.mem_filterMap.1 h
    obtain ⟨-, rfl⟩ := mem_of_else (Option.mem_toList.2 hm)
    exact ⟨utters_iff.2 ⟨rfl, rfl, Wording.fits_plain _⟩, rfl, rfl⟩
  | inlineStyle =>
    obtain ⟨m, -, rfl⟩ := Option.map_eq_some_iff.1 (Option.mem_toList.1 h)
    exact ⟨utters_iff.2 ⟨rfl, rfl, Wording.fits_plain _⟩, rfl, rfl⟩
  | debtMarker =>
    obtain ⟨m, -, rfl⟩ := Option.map_eq_some_iff.1 (Option.mem_toList.1 h)
    exact ⟨utters_iff.2 ⟨rfl, rfl, Wording.fits_around "" _ _⟩, rfl, rfl⟩
  | overlongLine =>
    obtain ⟨-, rfl⟩ := mem_of_if h
    have hlimit : toString Generic.longLine = "120" := rfl
    have hmessage : "Line is " ++ toString line.length ++ " characters long (limit " ++
        toString Generic.longLine ++ ")" =
          "Line is " ++ toString line.length ++ " characters long (limit 120)" := by
      simp [hlimit, String.append_assoc]
    have hfits := Wording.fits_around "Line is " (toString line.length)
      " characters long (limit 120)"
    exact ⟨utters_iff.2 ⟨rfl, rfl, hmessage ▸ hfits⟩, rfl, rfl⟩

end CodeCoach.Review
