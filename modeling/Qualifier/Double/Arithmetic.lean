import Qualifier.Double.Rounding

/-!
# Arithmetic on doubles

The four operations of IEEE 754, each the exact result in whole quanta rounded once to nearest.

What is not computed is decided by cases: a NaN on either side gives NaN, and so do the difference
of like infinities, zero times infinity, and the quotients `0 / 0` and `∞ / ∞`. A sum that
vanishes exactly is the positive zero unless both terms are negative.
-/

namespace Qualifier.Double

/-- The value of a finite double in quanta. -/
def quanta (negative : Bool) (rank : Nat) : Int :=
  if negative then -(magnitude rank : Int) else magnitude rank

/-- The sum, rounded. -/
def add : Double → Double → Double
  | .nan, _ | _, .nan => .nan
  | .infinite a, .infinite b => if a = b then .infinite a else .nan
  | .infinite a, .finite .. => .infinite a
  | .finite .., .infinite b => .infinite b
  | .finite a i, .finite b j =>
    let sum := quanta a i + quanta b j
    if sum = 0 then zero (a && b) else ofRatio (sum < 0) sum.natAbs 1

/-- The difference, rounded. -/
def sub (x y : Double) : Double :=
  x.add y.neg

/-- The product, rounded. -/
def mul : Double → Double → Double
  | .nan, _ | _, .nan => .nan
  | .infinite a, .infinite b => .infinite (a ^^ b)
  | .infinite a, .finite b j => if j.val = 0 then .nan else .infinite (a ^^ b)
  | .finite a i, .infinite b => if i.val = 0 then .nan else .infinite (a ^^ b)
  | .finite a i, .finite b j => ofRatio (a ^^ b) (magnitude i * magnitude j) unit

/-- The quotient, rounded. -/
def div : Double → Double → Double
  | .nan, _ | _, .nan => .nan
  | .infinite _, .infinite _ => .nan
  | .infinite a, .finite b _ => .infinite (a ^^ b)
  | .finite a _, .infinite b => zero (a ^^ b)
  | .finite a i, .finite b j =>
    if j.val = 0 then
      if i.val = 0 then .nan else .infinite (a ^^ b)
    else ofRatio (a ^^ b) (magnitude i * unit) (magnitude j)

instance : Add Double := ⟨add⟩
instance : Sub Double := ⟨sub⟩
instance : Mul Double := ⟨mul⟩
instance : Div Double := ⟨div⟩

end Qualifier.Double
