import CodeCoach.Pattern
import CodeCoach.Review.Finding

/-!
# Rules for every other language

The rules speak in this order on each line:

1. a marker of unfinished work, such as `TODO`;
2. a line of more than 120 characters, shown by its first hundred.
-/

namespace CodeCoach.Review.Generic

open Text Pattern

/-- Lines with more characters are too long. -/
def longLine : Nat := 120

/-- The number of characters of a long line that its snippet keeps. -/
def longLineShown : Nat := 100

def debtMarker : Pattern :=
  inOrder [edge, anyOf [word "TODO", word "FIXME", word "HACK", word "XXX"], edge]

def markedDebt (line : Line) : Option Finding :=
  (debtMarker.find line).map fun m =>
    { kind := .codeSmell
      severity := .info
      message := String.ofList m.text ++ " marker left in code"
      remedy := some "Resolve it, or track the work in an issue and remove the marker"
      column := some (columnOf line m.start.offset) }

def overlong (line : Line) : Option Finding :=
  if longLine < line.length then
    some
      { kind := .style
        severity := .info
        message := "Line is " ++ toString line.length ++ " characters long (limit " ++
          toString longLine ++ ")"
        remedy := some "Break the line up or extract part of it into a named value"
        snippet := some (String.ofList ((trim line).take longLineShown) ++ "...") }
  else none

/-- The rules in their order. -/
def rules : RuleSet := fun line _ => (markedDebt line).toList ++ (overlong line).toList

/-- The issues of a document's lines. -/
def issues (path : String) (lines : List Line) : List Issue := overLines rules path 0 lines

end CodeCoach.Review.Generic
