import CodeCoach.Instant
import CodeCoach.Text.Blank

/-!
# Instants as text

Instants are written in UTC in the form of RFC 3339, with no fraction of a second or with three,
six or nine digits of it, as few as are exact.  Years outside 0 to 9999 carry a sign.

Reading is more liberal.  Blanks may stand between the numbers of a date and of a time, a blank
may separate the two, any offset from UTC is accepted, and digits of the fraction beyond the ninth
are ignored.

* `Instant.render`, `Instant.parse?`.
-/

namespace CodeCoach

open Text

namespace Instant

/-! ### Writing -/

/-- The digits of `n`, at least `width` of them. -/
def padded (width n : Nat) : List Char :=
  let ds := Nat.toDigits 10 n
  List.replicate (width - ds.length) '0' ++ ds

/-- A year of four digits, or with a sign and at least four digits. -/
def renderYear (year : Int) : List Char :=
  if 0 ≤ year && year ≤ 9999 then padded 4 year.toNat
  else (if year < 0 then '-' else '+') :: padded 4 year.natAbs

/-- Year, month and day. -/
def renderDate (d : Date) : List Char :=
  renderYear d.year ++ '-' :: padded 2 d.month ++ '-' :: padded 2 d.day

/-- The fraction of a second in as few groups of three digits as are exact. -/
def renderFraction (nano : Nat) : List Char :=
  if nano == 0 then []
  else if nano % 1000000 == 0 then '.' :: padded 3 (nano / 1000000)
  else if nano % 1000 == 0 then '.' :: padded 6 (nano / 1000)
  else '.' :: padded 9 nano

/-- The characters of an instant. A leap second has the number 60. -/
def renderChars (t : Instant) : List Char :=
  let ofDay := (t.second.fmod 86400).toNat
  let isLeap := nanosPerSecond ≤ t.nano
  let second := ofDay % 60 + (if isLeap then 1 else 0)
  let nano := if isLeap then t.nano - nanosPerSecond else t.nano
  renderDate t.date ++ 'T' :: padded 2 (ofDay / 3600) ++ ':' :: padded 2 (ofDay / 60 % 60) ++
    ':' :: padded 2 second ++ renderFraction nano ++ ['Z']

/-- The text of an instant. -/
def render (t : Instant) : String := String.ofList t.renderChars

/-! ### Reading -/

/-- The value of decimal digits. -/
def digitsValue (ds : List Char) : Nat :=
  ds.foldl (fun n c => n * 10 + (c.toNat - '0'.toNat)) 0

/-- A number of at least one digit and at most `width` digits. -/
def number (width : Nat) (cs : List Char) : Option (Nat × List Char) :=
  let ds := (cs.take width).takeWhile Char.isDigit
  if ds.isEmpty then none else some (digitsValue ds, cs.drop ds.length)

/-- A number after blanks, between two limits. -/
def field (low high : Nat) (cs : List Char) : Option (Nat × List Char) := do
  let (n, rest) ← number 2 (trimStart cs)
  if low ≤ n && n ≤ high then pure (n, rest) else none

/-- A year: four digits at most, or a sign and any number of digits. -/
def year (cs : List Char) : Option (Int × List Char) :=
  match trimStart cs with
  | '-' :: rest => (number rest.length rest).map fun (n, rest) => (-(n : Int), rest)
  | '+' :: rest => (number rest.length rest).map fun (n, rest) => ((n : Int), rest)
  | rest => (number 4 rest).map fun (n, rest) => ((n : Int), rest)

/-- The text after a separator that blanks may surround. -/
def separator (c : Char) (cs : List Char) : Option (List Char) :=
  match trimStart cs with
  | d :: rest => if d == c then some rest else none
  | [] => none

/-- The nanoseconds of a fraction, of which the first nine digits count, where one begins. -/
def fraction : List Char → Option (Nat × List Char)
  | '.' :: rest =>
    let ds := rest.takeWhile Char.isDigit
    if ds.isEmpty then none
    else
      let kept := ds.take 9
      some (digitsValue kept * Nat.pow 10 (9 - kept.length), rest.drop ds.length)
  | cs => some (0, cs)

/-- The number of two digits. -/
def twoDigits : List Char → Option (Nat × List Char)
  | a :: b :: rest =>
    if a.isDigit && b.isDigit then some (digitsValue [a, b], rest) else none
  | _ => none

/-- The seconds of an offset after its sign: hours and minutes, between which colons and blanks
may stand. -/
def offsetAmount (cs : List Char) : Option (Nat × List Char) := do
  let (hours, rest) ← twoDigits cs
  let (minutes, rest) ← twoDigits (rest.dropWhile fun c => c == ':' || isBlank c)
  if minutes < 60 && hours < 24 then pure (hours * 3600 + minutes * 60, rest) else none

/-- The offset from UTC in seconds: the word UTC or a Z in any case, or a sign and an amount. -/
def offset (cs : List Char) : Option (Int × List Char) :=
  if (cs.take 3).map Char.toLower == ['u', 't', 'c'] then some (0, cs.drop 3)
  else
    match cs with
    | [] => none
    | c :: rest =>
      if c == 'Z' || c == 'z' then some (0, rest)
      else if c == '+' then (offsetAmount rest).map fun (n, rest) => ((n : Int), rest)
      else if c == '-' || c.toNat == 0x2212 then
        (offsetAmount rest).map fun (n, rest) => (-(n : Int), rest)
      else none

/-- The years that a date may have. -/
def leastYear : Int := -262143

def greatestYear : Int := 262142

/-- The instant of a list of characters. -/
def parseChars (cs : List Char) : Option Instant := do
  let (year, cs) ← year cs
  let cs ← separator '-' cs
  let (month, cs) ← field 1 12 cs
  let cs ← separator '-' cs
  let (day, cs) ← field 1 31 cs
  let cs ← match cs with
    | c :: rest => if c == 'T' || c == 't' || c == ' ' then some rest else none
    | [] => none
  let (hour, cs) ← field 0 23 cs
  let cs ← separator ':' cs
  let (minute, cs) ← field 0 59 cs
  let cs ← separator ':' cs
  let (second, cs) ← field 0 60 cs
  let (nano, cs) ← fraction cs
  let (offset, cs) ← offset (trimStart cs)
  if !isAllBlank cs then none
  else if year < leastYear || greatestYear < year then none
  else
    let date : Date := ⟨year, month, day⟩
    if !date.isValid then none
    else
      let isLeap := second == 60
      let ofDay := hour * 3600 + minute * 60 + (if isLeap then 59 else second)
      let t : Instant :=
        ⟨date.toDays * 86400 + ofDay - offset, nano + (if isLeap then nanosPerSecond else 0)⟩
      if t.inRange then pure t else none

/-- The instant of a text. -/
def parse? (s : String) : Option Instant := parseChars s.toList

end Instant

end CodeCoach
