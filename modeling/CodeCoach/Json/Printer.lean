import CodeCoach.Decimal.Shortest
import CodeCoach.Json.Value

/-!
# JSON text

* `Json.floatLayout`, how floats are written;
* `Json.quote`, a string with its escapes;
* `Json.compact`, a value on one line without blanks;
* `Json.pretty`, a value with one field or item a line and two spaces for each level.
-/

namespace CodeCoach.Json

/-- Floats have a point or an exponent with a sign; those of at least `10 ^ 16` or less than
`10 ^ -5` have an exponent. -/
def floatLayout : Decimal.Layout := ⟨-5, 15, "+"⟩

/-- The digit of a number below sixteen. -/
def hexDigit (n : Nat) : Char := (Nat.toDigits 16 n).headD '0'

/-- One character within quotes. -/
def quoteChar (c : Char) : List Char :=
  if c == '\x22' then ['\x5c', '\x22']
  else if c == '\x5c' then ['\x5c', '\x5c']
  else if c == '\n' then ['\x5c', 'n']
  else if c == '\r' then ['\x5c', 'r']
  else if c == '\t' then ['\x5c', 't']
  else if c == '\x08' then ['\x5c', 'b']
  else if c == '\x0c' then ['\x5c', 'f']
  else if c.toNat < 0x20 then
    ['\x5c', 'u', '0', '0', hexDigit (c.toNat / 16), hexDigit (c.toNat % 16)]
  else [c]

/-- A string within double quotes. -/
def quote (s : String) : List Char := '\x22' :: s.toList.flatMap quoteChar ++ ['\x22']

/-- A number that is not a whole number; one that is not finite has no JSON form but null. -/
def floatChars (f : Float) : List Char :=
  if f.isFinite then floatLayout.render f else "null".toList

/-- The text of a value that has no parts. -/
def leafChars : Json → List Char
  | null => "null".toList
  | bool b => (if b then "true" else "false").toList
  | int n => (if n < 0 then ['-'] else []) ++ Decimal.natChars n.natAbs
  | float f => floatChars f
  | str s => quote s
  | arr _ => []
  | obj _ => []

mutual

/-- The text of a value on one line, put before `after`. -/
def compactChars (after : List Char) : Json → List Char
  | arr [] => '[' :: ']' :: after
  | arr (v :: rest) => '[' :: compactChars (compactItems after rest) v
  | obj [] => '\x7b' :: '\x7d' :: after
  | obj ((n, v) :: rest) =>
    '\x7b' :: (quote n ++ ':' :: compactChars (compactFields after rest) v)
  | leaf => leafChars leaf ++ after

/-- The items after the first, and the closing bracket. -/
def compactItems (after : List Char) : List Json → List Char
  | [] => ']' :: after
  | v :: rest => ',' :: compactChars (compactItems after rest) v

/-- The fields after the first, and the closing brace. -/
def compactFields (after : List Char) : List (String × Json) → List Char
  | [] => '\x7d' :: after
  | (n, v) :: rest => ',' :: (quote n ++ ':' :: compactChars (compactFields after rest) v)

end

/-- A line feed and the blanks of a level. -/
def newLine (level : Nat) : List Char := '\n' :: List.replicate (2 * level) ' '

mutual

/-- The text of a value over several lines, put before `after`. -/
def prettyChars (level : Nat) (after : List Char) : Json → List Char
  | arr [] => '[' :: ']' :: after
  | arr (v :: rest) =>
    '[' :: (newLine (level + 1) ++ prettyChars (level + 1) (prettyItems level after rest) v)
  | obj [] => '\x7b' :: '\x7d' :: after
  | obj ((n, v) :: rest) =>
    '\x7b' :: (newLine (level + 1) ++
      (quote n ++ ':' :: ' ' :: prettyChars (level + 1) (prettyFields level after rest) v))
  | leaf => leafChars leaf ++ after

/-- The items after the first, each on a line, and the closing bracket. -/
def prettyItems (level : Nat) (after : List Char) : List Json → List Char
  | [] => newLine level ++ ']' :: after
  | v :: rest =>
    ',' :: (newLine (level + 1) ++ prettyChars (level + 1) (prettyItems level after rest) v)

/-- The fields after the first, each on a line, and the closing brace. -/
def prettyFields (level : Nat) (after : List Char) : List (String × Json) → List Char
  | [] => newLine level ++ '\x7d' :: after
  | (n, v) :: rest =>
    ',' :: (newLine (level + 1) ++
      (quote n ++ ':' :: ' ' :: prettyChars (level + 1) (prettyFields level after rest) v))

end

/-- The text of a value on one line. -/
def compact (v : Json) : String := String.ofList (compactChars [] v)

/-- The text of a value over several lines. -/
def pretty (v : Json) : String := String.ofList (prettyChars 0 [] v)

end CodeCoach.Json
