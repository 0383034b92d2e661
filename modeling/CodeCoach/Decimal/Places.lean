import CodeCoach.Decimal.Shortest

/-!
# Floats with a set number of decimal places

The exact value is rounded to the nearest multiple of a power of ten, and a tie goes to the even
neighbour.
-/

namespace CodeCoach.Decimal

/-- The natural number nearest to `num / den`; a tie goes to the even neighbour. -/
def roundDiv (num den : Nat) : Nat :=
  let down := num / den
  match compare (2 * (num % den)) den with
  | .lt => down
  | .gt => down + 1
  | .eq => if down % 2 == 0 then down else down + 1

/-- The digits of `n`, at least `width` of them. -/
def paddedDigits (width n : Nat) : List Char :=
  let ds := natChars n
  List.replicate (width - ds.length) '0' ++ ds

/-- A finite float with the given number of places after the point, and no point when that is
none. -/
def renderPlaces (places : Nat) (f : Float) : String :=
  let b := Binary.ofFloat f
  let ds := paddedDigits (places + 1) (roundDiv (b.num * Nat.pow 10 places) b.den)
  let whole := ds.length - places
  String.ofList ((if isNegative f then ['-'] else []) ++ ds.take whole ++
    (if places == 0 then [] else '.' :: ds.drop whole))

end CodeCoach.Decimal
