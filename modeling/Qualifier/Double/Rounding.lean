import Qualifier.Decimal
import Qualifier.Double

/-!
# Rounding to doubles

One function, `Double.ofRatio`, turns an exact quotient into the nearest double. Arithmetic and
the reading of numerals are exact computations followed by it, so each of them rounds once.

Ranks make the rounding uniform. A quotient lies between the magnitudes of two consecutive ranks
and goes to the nearer one, from a tie to the even one; that the upper of the two may open a new
binade, or be the place of infinity, needs no case of its own.
-/

namespace Qualifier.Double

/-- The rank whose magnitude is nearest to `n / d` quanta, the even one of two equally near. Here
`shift` is how many times the step has doubled where the quotient lies, `whole` counts the steps
below it, and `rest` is what they leave. -/
def nearestRank (n d : Nat) : Nat :=
  let shift := (n / d).log2 - 52
  let step := d * Nat.pow 2 shift
  let whole := n / step
  let rest := n % step
  let rank := shift * binade + whole
  if step < 2 * rest ∨ (2 * rest = step ∧ whole % 2 = 1) then rank + 1 else rank

/-- The double nearest to `n / d` quanta with the given sign: infinite on overflow, a zero of that
sign on underflow. -/
def ofRatio (negative : Bool) (n d : Nat) : Double :=
  ofRank negative (nearestRank n d)

/-- The double nearest to a signed decimal.

A nonzero decimal of `width` digits lies between the powers of ten `exponent + width - 1` and
`exponent + width`. Beyond `10 ^ 400` everything is infinite and below `10 ^ -400` everything is
zero, which settles exponents too large to compute with. -/
def ofDecimal (negative : Bool) (x : Decimal) : Double :=
  let top := x.exponent + Decimal.width x.coefficient
  if x.coefficient = 0 ∨ top < -400 then zero negative
  else if 400 < top then .infinite negative
  else match x.exponent with
    | .ofNat e => ofRatio negative (x.coefficient * Nat.pow 10 e * unit) 1
    | .negSucc e => ofRatio negative (x.coefficient * unit) (Nat.pow 10 (e + 1))

/-- The double nearest to an integer. -/
def ofInt (n : Int) : Double :=
  ofRatio (n < 0) (n.natAbs * unit) 1

end Qualifier.Double
