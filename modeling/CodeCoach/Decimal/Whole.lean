import CodeCoach.Decimal.Binary

/-!
# The nearest whole number

* `halfUp`, the natural number nearest to a quotient, the greater one of two that are equally near;
* `roundHalfAway`, the whole float nearest to a float; a half goes away from zero.
-/

namespace CodeCoach.Decimal

/-- The natural number nearest to `num / den`; a half goes up. -/
def halfUp (num den : Nat) : Nat := (2 * num + den) / (2 * den)

/-- The whole float nearest to a float; a half goes away from zero. -/
def roundHalfAway (x : Float) : Float :=
  if x.isFinite then
    let b := Binary.ofFloat x
    let n : Int := halfUp b.num b.den
    Float.ofInt (if isNegative x then -n else n)
  else x

end CodeCoach.Decimal
