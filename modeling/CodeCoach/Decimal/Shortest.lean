import CodeCoach.Decimal.Binary

/-!
# The fewest digits that identify a float

The real numbers that round to a float form an interval around it, which holds its ends when the
mantissa is even.  Among the decimals in that interval the ones with the fewest digits are taken,
and among these the one nearest to the float.

* `Digits`, the decimal `digits * 10 ^ exponent`;
* `readsBack`, the test for the interval;
* `shortest`, the search through grids of more and more digits;
* `Layout`, how digits become text, and `Layout.render`.
-/

namespace CodeCoach.Decimal

/-- The decimal `digits * 10 ^ exponent`. -/
structure Digits where
  digits : Nat
  exponent : Int
  deriving DecidableEq, Repr

/-- Compares `d` with `n / 4` times the scale of `b`. -/
def compareQuarters (b : Binary) (d : Digits) (n : Nat) : Ordering :=
  compare (4 * d.digits * Nat.pow 10 d.exponent.toNat * b.den)
    (b.scaledNum n * Nat.pow 10 (-d.exponent).toNat)

/-- Whether `d` lies among the reals that round to `b`. -/
def readsBack (b : Binary) (d : Digits) : Bool :=
  let low := 4 * b.mantissa - (if b.narrowBelow then 1 else 2)
  let high := 4 * b.mantissa + 2
  let even := b.mantissa % 2 == 0
  let fromLow := compareQuarters b d low
  let fromHigh := compareQuarters b d high
  (fromLow == .gt || (even && fromLow == .eq)) && (fromHigh == .lt || (even && fromHigh == .eq))

/-- The number of decimal digits of a natural number; zero has none. -/
def digitCount (n : Nat) : Nat := if n == 0 then 0 else (Nat.toDigits 10 n).length

/-- More decimal places than any float has before its first digit. -/
def deepest : Nat := 400

/-- The least `k` for which a nonzero value is below `10 ^ k`. -/
def magnitude (b : Binary) : Int := (digitCount (b.num * Nat.pow 10 deepest / b.den) : Int) - deepest

/-- The largest multiple of `10 ^ exponent` that is at most the value. -/
def floorAt (b : Binary) (exponent : Int) : Digits :=
  ⟨b.num * Nat.pow 10 (-exponent).toNat / (b.den * Nat.pow 10 exponent.toNat), exponent⟩

/-- The one of two neighbours on a grid that reads back; of two, the nearer; of two equally near,
the even one. -/
def nearest (b : Binary) (exponent : Int) : Option Digits :=
  let down := floorAt b exponent
  let up : Digits := ⟨down.digits + 1, exponent⟩
  match readsBack b down, readsBack b up with
  | false, false => none
  | true, false => some down
  | false, true => some up
  | true, true =>
    let middle : Digits := ⟨2 * down.digits + 1, exponent⟩
    match compareQuarters b middle (8 * b.mantissa) with
    | .gt => some down
    | .lt => some up
    | .eq => some (if down.digits % 2 == 0 then down else up)

/-- The first grid with an answer, from the given number of digits on; `fuel` bounds the number of
grids that are tried. -/
def searchGrids (b : Binary) (top : Int) (count : Nat) : Nat → Digits
  | 0 => floorAt b (top - count)
  | fuel + 1 =>
    match nearest b (top - count) with
    | some d => d
    | none => searchGrids b top (count + 1) fuel

/-- Moves the trailing zeros of the digits into the exponent; `fuel` bounds their number. -/
def Digits.strip (d : Digits) : Nat → Digits
  | 0 => d
  | fuel + 1 =>
    if d.digits != 0 && d.digits % 10 == 0 then
      Digits.strip ⟨d.digits / 10, d.exponent + 1⟩ fuel
    else d

/-- The fewest digits that identify a nonzero value. -/
def shortest (b : Binary) : Digits :=
  let d := searchGrids b (magnitude b) 1 17
  d.strip (digitCount d.digits)

/-! ### Layout -/

/-- How the digits of a float are written. -/
structure Layout where
  /-- The least exponent of the first digit that is written without an exponent. -/
  leastPlain : Int
  /-- The greatest exponent of the first digit that is written without an exponent. -/
  greatestPlain : Int
  /-- The sign before an exponent that is not negative. -/
  plus : String

/-- The characters of a natural number in decimal. -/
def natChars (n : Nat) : List Char := Nat.toDigits 10 n

/-- A float written with a decimal point, or with an exponent when it is large or small. -/
def Layout.renderDigits (l : Layout) (d : Digits) : List Char :=
  let ds := natChars d.digits
  let count := ds.length
  let first : Int := d.exponent + count - 1
  if l.leastPlain ≤ first && first ≤ l.greatestPlain then
    if 0 ≤ d.exponent then ds ++ List.replicate d.exponent.toNat '0' ++ ['.', '0']
    else if 0 ≤ first then
      let whole := (first + 1).toNat
      ds.take whole ++ '.' :: ds.drop whole
    else ['0', '.'] ++ List.replicate (-first - 1).toNat '0' ++ ds
  else
    let fraction := ds.drop 1
    ds.take 1 ++ (if fraction.isEmpty then [] else '.' :: fraction) ++ ['e'] ++
      (if first < 0 then ['-'] else l.plus.toList) ++ natChars first.natAbs

/-- The text of a finite float. -/
def Layout.render (l : Layout) (f : Float) : List Char :=
  let b := Binary.ofFloat f
  (if isNegative f then ['-'] else []) ++
    (if b.mantissa == 0 then ['0', '.', '0'] else l.renderDigits (shortest b))

end CodeCoach.Decimal
