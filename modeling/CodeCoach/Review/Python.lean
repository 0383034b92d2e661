import CodeCoach.Pattern
import CodeCoach.Review.Finding
import CodeCoach.Review.Literal

/-!
# Rules for Python

On each line that is not a comment the rules speak in this order:

1. interpolated SQL passed to `execute()`, a security issue;
2. an `except:` without an exception, a bug;
3. a `def` without a return annotation, a matter of style.
-/

namespace CodeCoach.Review.Python

open Text Pattern

/-! ### Patterns -/

/-- A call of an execute method whose first argument is an interpolated or combined literal. -/
def interpolatedExecute : Pattern :=
  let isMark (c : Char) := c == doubleQuote || c == singleQuote
  let quote := one isMark
  inOrder [edge, anyOf [word "execute", word "executemany", word "executescript"], blanks, char '(',
    blanks,
    anyOf [
      inOrder [charOf "fF", optional (charOf "rR"), quote],
      inOrder [charOf "rR", charOf "fF", quote],
      inOrder [quote, many (!isMark ·), quote, blanks,
        anyOf [char '%', char '+', inOrder [word ".format", blanks, char '(']]]]]

def bareExcept : Pattern := inOrder [atStart, blanks, word "except", blanks, char ':']

/-- The head of a definition, up to its name. -/
def definitionHead : Pattern :=
  inOrder [atStart, blanks, optional (both (word "async") (oneOrMore isBlank)), word "def",
    oneOrMore isBlank]

/-- What follows the name of a definition that has no return annotation. -/
def definitionTail : Pattern :=
  inOrder [blanks, char '(', anything, char ')', blanks, char ':']

def definition : Pattern := inOrder [definitionHead, oneOrMore isWord, definitionTail]

/-! ### Rules -/

def isComment (line : Line) : Bool := startsWith "#" (trimStart line)

def interpolatedSql (line : Line) : Option Finding :=
  if interpolatedExecute.occursIn line then
    some
      { kind := .security
        severity := .critical
        message := "SQL built with string interpolation is passed to execute()"
        remedy := some ("Pass parameters separately: " ++
          "cursor.execute(\"SELECT * FROM t WHERE id = %s\", (id,))") }
  else none

def uncheckedExcept (line : Line) : Option Finding :=
  if bareExcept.occursIn line then
    some
      { kind := .bug
        severity := .warning
        message := "Bare `except:` also catches SystemExit and KeyboardInterrupt"
        remedy := some "Catch a specific exception, e.g. `except ValueError:`" }
  else none

/-- The name of the function that a line defines without a return annotation: the word characters
after the head of the definition. -/
def unannotatedName (line : Line) : Option (List Char) :=
  if definition.occursIn line then
    (definitionHead.find line).map fun m => m.stop.rest.takeWhile isWord
  else none

def unannotatedDefinition (line : Line) : Option Finding :=
  (unannotatedName line).map fun name =>
    { kind := .style
      severity := .info
      message := "Function `" ++ String.ofList name ++ "` has no return type annotation"
      remedy := some "Add a return annotation, e.g. `-> None`" }

/-- The rules in their order. -/
def rules : RuleSet := fun line _ =>
  if isComment line then []
  else
    (interpolatedSql line).toList ++ (uncheckedExcept line).toList ++
      (unannotatedDefinition line).toList

/-- The issues of a document's lines. -/
def issues (path : String) (lines : List Line) : List Issue := overLines rules path 0 lines

end CodeCoach.Review.Python
