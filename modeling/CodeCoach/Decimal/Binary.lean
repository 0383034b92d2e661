/-!
# Floating point numbers as exact values

* `Binary`, a mantissa times a power of two, and `Binary.ofFloat`, the magnitude of a float;
* `isNegative`, the sign bit;
* `Binary.num`, `Binary.den`, the value as a quotient of natural numbers.
-/

namespace CodeCoach.Decimal

/-- The value `mantissa * 2 ^ exponent`. -/
structure Binary where
  mantissa : Nat
  exponent : Int
  /-- Whether the gap to the float below is half the gap to the float above. -/
  narrowBelow : Bool
  deriving DecidableEq, Repr

/-- The magnitude of a finite float. -/
def Binary.ofFloat (f : Float) : Binary :=
  let bits : Nat := f.toBits.toNat
  let field : Nat := bits / 0x10000000000000 % 0x800
  let fraction : Nat := bits % 0x10000000000000
  if field == 0 then ⟨fraction, -1074, false⟩
  else ⟨0x10000000000000 + fraction, (field : Int) - 1075, fraction == 0 && 1 < field⟩

/-- Whether the sign bit of a float is set. -/
def isNegative (f : Float) : Bool := 0x8000000000000000 ≤ f.toBits.toNat

namespace Binary

/-- The numerator of `n * 2 ^ b.exponent`. -/
def scaledNum (b : Binary) (n : Nat) : Nat := n * Nat.pow 2 b.exponent.toNat

/-- The denominator that goes with every `scaledNum`. -/
def den (b : Binary) : Nat := Nat.pow 2 (-b.exponent).toNat

/-- The numerator of the value. -/
def num (b : Binary) : Nat := b.scaledNum b.mantissa

end Binary

end CodeCoach.Decimal
