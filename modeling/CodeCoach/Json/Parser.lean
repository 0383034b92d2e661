import CodeCoach.Json.Number

/-!
# Reading JSON text

The whole text has to be one value, with blanks around it at most.  Objects and arrays may be
nested 127 deep.  The characters below the space are refused in strings, and so are escapes for
unpaired surrogates.

* `Json.stringBody`, the rest of a string after its opening quote;
* `Json.value`, a value at the start of a text;
* `Json.parse?`, the value of a text.
-/

namespace CodeCoach.Json

/-- The blanks that may stand between the parts of a value. -/
def isSpace (c : Char) : Bool := c == ' ' || c == '\n' || c == '\t' || c == '\r'

def skipSpace (cs : List Char) : List Char := cs.dropWhile isSpace

/-- The value of a hexadecimal digit. -/
def hexValue (c : Char) : Option Nat :=
  if c.isDigit then some (c.toNat - '0'.toNat)
  else if 'a' ≤ c && c ≤ 'f' then some (c.toNat - 'a'.toNat + 10)
  else if 'A' ≤ c && c ≤ 'F' then some (c.toNat - 'A'.toNat + 10)
  else none

/-- The four hexadecimal digits of an escape, and what follows. -/
def hexFour : List Char → Option (Nat × List Char)
  | a :: b :: c :: d :: rest => do
    let a ← hexValue a
    let b ← hexValue b
    let c ← hexValue c
    let d ← hexValue d
    pure (((a * 16 + b) * 16 + c) * 16 + d, rest)
  | _ => none

/-- The character of an escape by code units: a unit outside the surrogates stands alone, and a
high surrogate needs the escape of a low one after it. -/
def unicodeEscape (cs : List Char) : Option (Char × List Char) := do
  let (n, rest) ← hexFour cs
  if n < 0xD800 || 0xE000 ≤ n then pure (Char.ofNat n, rest)
  else if 0xDC00 ≤ n then none
  else
    match rest with
    | '\x5c' :: 'u' :: rest =>
      let (m, rest) ← hexFour rest
      if 0xDC00 ≤ m && m < 0xE000 then
        pure (Char.ofNat (0x10000 + (n - 0xD800) * 0x400 + (m - 0xDC00)), rest)
      else none
    | _ => none

/-- The character of an escape, after its backslash. -/
def escape : List Char → Option (Char × List Char)
  | '\x22' :: rest => some ('\x22', rest)
  | '\x5c' :: rest => some ('\x5c', rest)
  | '/' :: rest => some ('/', rest)
  | 'b' :: rest => some ('\x08', rest)
  | 'f' :: rest => some ('\x0c', rest)
  | 'n' :: rest => some ('\n', rest)
  | 'r' :: rest => some ('\r', rest)
  | 't' :: rest => some ('\t', rest)
  | 'u' :: rest => unicodeEscape rest
  | _ => none

/-- The string up to its closing quote and what follows; `read` holds the characters so far in
reverse, and `fuel` is at least the number of characters left. -/
def stringBody (read : List Char) : Nat → List Char → Option (String × List Char)
  | 0, _ => none
  | _ + 1, [] => none
  | fuel + 1, c :: rest =>
    if c == '\x22' then some (String.ofList read.reverse, rest)
    else if c == '\x5c' then
      match escape rest with
      | some (d, rest) => stringBody (d :: read) fuel rest
      | none => none
    else if c.toNat < 0x20 then none
    else stringBody (c :: read) fuel rest

/-- The text after a word, where it begins with the word. -/
def afterWord (word : String) (cs : List Char) : Option (List Char) :=
  if word.toList.isPrefixOf cs then some (cs.drop word.length) else none

mutual

/-- The value at the start of a text and what follows it. `depth` is one more than the number of
levels that may still be opened, and `fuel` at least the number of characters left. -/
def value (depth : Nat) : Nat → List Char → Option (Json × List Char)
  | 0, _ => none
  | fuel + 1, cs =>
    match skipSpace cs with
    | [] => none
    | 'n' :: rest => (afterWord "ull" rest).map (null, ·)
    | 't' :: rest => (afterWord "rue" rest).map (bool true, ·)
    | 'f' :: rest => (afterWord "alse" rest).map (bool false, ·)
    | '\x22' :: rest => (stringBody [] (rest.length + 1) rest).map fun (s, rest) => (str s, rest)
    | '[' :: rest =>
      if depth ≤ 1 then none
      else
        match skipSpace rest with
        | ']' :: rest => some (arr [], rest)
        | rest => items (depth - 1) [] fuel rest
    | '\x7b' :: rest =>
      if depth ≤ 1 then none
      else
        match skipSpace rest with
        | '\x7d' :: rest => some (obj [], rest)
        | rest => fields (depth - 1) [] fuel rest
    | c :: rest => if c == '-' || c.isDigit then number (c :: rest) else none

/-- The items of an array from the next one on, and what follows its bracket; `read` holds the
items so far in reverse. -/
def items (depth : Nat) (read : List Json) : Nat → List Char → Option (Json × List Char)
  | 0, _ => none
  | fuel + 1, cs =>
    match value depth fuel cs with
    | none => none
    | some (v, rest) =>
      match skipSpace rest with
      | ']' :: rest => some (arr (v :: read).reverse, rest)
      | ',' :: rest => items depth (v :: read) fuel rest
      | _ => none

/-- The fields of an object from the next one on, and what follows its brace; `read` holds the
fields so far in the order of their names. -/
def fields (depth : Nat) (read : List (String × Json)) :
    Nat → List Char → Option (Json × List Char)
  | 0, _ => none
  | fuel + 1, cs =>
    match skipSpace cs with
    | '\x22' :: rest =>
      match stringBody [] (rest.length + 1) rest with
      | none => none
      | some (name, rest) =>
        match skipSpace rest with
        | ':' :: rest =>
          match value depth fuel rest with
          | none => none
          | some (v, rest) =>
            let read := Sorted.put Prod.fst (name, v) read
            match skipSpace rest with
            | '\x7d' :: rest => some (obj read, rest)
            | ',' :: rest => fields depth read fuel rest
            | _ => none
        | _ => none
    | _ => none

end

/-- One more than the greatest depth of nesting. -/
def depthLimit : Nat := 128

/-- The value of a text. -/
def parse? (s : String) : Option Json :=
  let cs := s.toList
  match value depthLimit (cs.length + 1) cs with
  | some (v, rest) => if (skipSpace rest).isEmpty then some v else none
  | none => none

end CodeCoach.Json
