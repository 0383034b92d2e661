import CodeCoach.Json.Value

/-!
# Reading JSON numbers

A number without point and exponent that fits 64 bits is whole.  Every other number is a float: its
leading digits, as many as fit 64 unsigned bits, are converted to a float and scaled by a power of
ten, so the last bit need not be that of the nearest float.

* `takeDigits`, the leading digits of a text;
* `scale`, a float from an integer and a power of ten, unless it is too large;
* `number`, the number at the start of a text and the characters after it.
-/

namespace CodeCoach.Json

/-- The largest natural number that fits 64 bits. -/
def maxWord : Nat := 0xFFFFFFFFFFFFFFFF

/-- The largest exponent that is read. -/
def maxExponent : Nat := 0x7FFFFFFF

/-- The value of a digit. -/
def digitValue (c : Char) : Nat := c.toNat - '0'.toNat

/-- The digits that a text begins with, and the rest. -/
def takeDigits (cs : List Char) : List Char × List Char := cs.span Char.isDigit

/-- Reads digits after `value` while the result fits 64 bits. Returns it with the number of digits
read and the digits left over. -/
def readWord (value count : Nat) : List Char → Nat × Nat × List Char
  | [] => (value, count, [])
  | c :: rest =>
    let next := value * 10 + digitValue c
    if next ≤ maxWord then readWord next (count + 1) rest else (value, count, c :: rest)

/-- A power of ten as a float. -/
def powerOfTen (n : Nat) : Float := Float.ofScientific 1 false n

/-- The greatest power of ten that is a finite float. -/
def greatestPower : Nat := 308

/-- Divides by powers of ten, the greatest first, until the exponent is used up or nothing is
left. -/
def scaleDown (fuel : Nat) (f : Float) (n : Nat) : Float :=
  match fuel with
  | 0 => f
  | fuel + 1 =>
    if n ≤ greatestPower then f / powerOfTen n
    else if f == 0 then f
    else scaleDown fuel (f / powerOfTen greatestPower) (n - greatestPower)

/-- The float `significand * 10 ^ exponent`, unless it is too large. -/
def scale (significand : Nat) (exponent : Int) : Option Float :=
  let f := Float.ofNat significand
  if exponent < 0 then some (scaleDown (exponent.natAbs / greatestPower + 2) f exponent.natAbs)
  else if exponent ≤ (greatestPower : Int) then
    let g := f * powerOfTen exponent.toNat
    if g.isFinite then some g else none
  else if f == 0 then some f
  else none

/-- A float with the sign of the number. -/
def signed (negative : Bool) (f : Float) : Json := float (if negative then -f else f)

/-- Reads the digits of an exponent after its sign; one beyond `maxExponent` gives zero, or fails
where the number would be large. -/
def exponentDigits (negative : Bool) (significand : Nat) (start : Int) (down : Bool)
    (cs : List Char) : Option (Json × List Char) :=
  let (ds, rest) := takeDigits cs
  if ds.isEmpty then none
  else
    let e := ds.foldl (fun n c => n * 10 + digitValue c) 0
    if maxExponent < e then
      if significand != 0 && !down then none else some (signed negative 0, rest)
    else
      (scale significand (if down then start - e else start + e)).map
        fun f => (signed negative f, rest)

/-- The sign of an exponent, if it has one, and its digits. -/
def exponent (negative : Bool) (significand : Nat) (start : Int) :
    List Char → Option (Json × List Char)
  | '+' :: rest => exponentDigits negative significand start false rest
  | '-' :: rest => exponentDigits negative significand start true rest
  | rest => exponentDigits negative significand start false rest

/-- An exponent where one follows, and else the number as it stands. -/
def withExponent (negative : Bool) (significand : Nat) (start : Int) :
    List Char → Option (Json × List Char)
  | 'e' :: rest => exponent negative significand start rest
  | 'E' :: rest => exponent negative significand start rest
  | rest => (scale significand start).map fun f => (signed negative f, rest)

/-- The digits after a point, of which there is at least one; those that do not fit are ignored. -/
def fraction (negative : Bool) (significand : Nat) (start : Int) (cs : List Char) :
    Option (Json × List Char) :=
  let (ds, rest) := takeDigits cs
  if ds.isEmpty then none
  else
    let (value, count, _) := readWord significand 0 ds
    withExponent negative value (start - count) rest

/-- The whole number with the given digits, or a float where it does not fit 64 bits. The negative
zero is a float. -/
def whole (negative : Bool) (n : Nat) : Json :=
  if !negative then int n
  else if 0 < n && n ≤ 0x8000000000000000 then int (-n)
  else float (-Float.ofNat n)

/-- What follows the whole part of a number. -/
def afterWhole (negative : Bool) (n : Nat) : List Char → Option (Json × List Char)
  | '.' :: rest => fraction negative n 0 rest
  | 'e' :: rest => exponent negative n 0 rest
  | 'E' :: rest => exponent negative n 0 rest
  | rest => some (whole negative n, rest)

/-- What follows a whole part of which `left` digits did not fit. -/
def afterLong (negative : Bool) (n left : Nat) : List Char → Option (Json × List Char)
  | '.' :: rest => fraction negative n left rest
  | rest => withExponent negative n left rest

/-- A number without its sign. A zero may not be followed by another digit. -/
def unsignedNumber (negative : Bool) (cs : List Char) : Option (Json × List Char) :=
  match takeDigits cs with
  | ([], _) => none
  | (['0'], rest) => afterWhole negative 0 rest
  | ('0' :: _, _) => none
  | (ds, rest) =>
    match readWord 0 0 ds with
    | (n, _, []) => afterWhole negative n rest
    | (n, _, left) => afterLong negative n left.length rest

/-- The number at the start of a text, and what follows it. -/
def number : List Char → Option (Json × List Char)
  | '-' :: rest => unsignedNumber true rest
  | cs => unsignedNumber false cs

end CodeCoach.Json
