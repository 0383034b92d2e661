import CodeCoach.Issue
import CodeCoach.Text.Line

/-!
# Findings on a line

* `Finding`, what a rule says about one line, before it is placed in a document;
* `Finding.at`, the issue that a finding is on a given line: its snippet is the trimmed line unless
  the rule gives another;
* `columnOf`, the column of a byte offset;
* `overLines`, the issues of a whole document from a rule set for one line, which sees the line
  and the lines after it.
-/

namespace CodeCoach.Review

open Text

/-- What a rule says about a line. -/
structure Finding where
  kind : Kind
  severity : Severity
  message : String
  remedy : Option String := none
  column : Option Nat := none
  snippet : Option String := none
  deriving DecidableEq, Repr

/-- The issue of a finding on the line with the given index, which counts from zero and is below
2^32 - 1. -/
def Finding.at (f : Finding) (path : String) (index : Nat) (line : Line) : Issue where
  kind := f.kind
  severity := f.severity
  location := ⟨path, index + 1, f.column⟩
  snippet := f.snippet.getD (String.ofList (trim line))
  message := f.message
  remedy := f.remedy

/-- The number of characters in the first `n` bytes, when these end between two characters. -/
def charsWithin : Nat → List Char → Option Nat
  | 0, _ => some 0
  | _ + 1, [] => none
  | n + 1, c :: rest =>
    if c.utf8Size ≤ n + 1 then (charsWithin (n + 1 - c.utf8Size) rest).map (· + 1) else none

/-- The column of a byte offset, counted in characters from one; an offset within a character
has column one. Fewer than 2^32 - 1 characters are before the offset. -/
def columnOf (line : Line) (offset : Nat) : Nat :=
  match charsWithin offset line with
  | some n => n + 1
  | none => 1

/-- A rule set: its findings on a line, given the lines that follow. -/
abbrev RuleSet := Line → List Line → List Finding

/-- The issues of a rule set on the lines from the one with the given index on. -/
def overLines (rules : RuleSet) (path : String) : Nat → List Line → List Issue
  | _, [] => []
  | index, line :: rest =>
    (rules line rest).map (·.at path index line) ++ overLines rules path (index + 1) rest

@[simp] theorem overLines_nil (rules : RuleSet) (path : String) (index : Nat) :
    overLines rules path index [] = [] := rfl

theorem overLines_cons (rules : RuleSet) (path : String) (index : Nat) (line : Line)
    (rest : List Line) :
    overLines rules path index (line :: rest) =
      (rules line rest).map (·.at path index line) ++ overLines rules path (index + 1) rest := rfl

end CodeCoach.Review
