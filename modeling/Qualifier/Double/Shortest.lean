import Qualifier.Decimal
import Qualifier.Double

/-!
# The shortest decimal of a double

A double is named by the decimals that read back as it. This module selects one with the fewest
digits, and among those the one nearest to the double. Of two equally near ones either the greater
or the even one is taken; formats differ in that.

The search walks decimal grids from coarse to fine. On the grid of multiples of `10 ^ s` only the
two neighbours of the value can be its nearest points, so a grid is settled by testing these two,
and the first grid with a hit has the fewest digits. All numbers are counted in units of `10 ^
-1074`: every finite double is a whole number of them, so the finest grid holds the value itself
and the search always ends.
-/

namespace Qualifier.Double

/-- Which of two neighbouring coefficients is taken when a value lies halfway between them. -/
inductive Tie where
  /-- The greater one. -/
  | up
  /-- The even one. -/
  | even
deriving DecidableEq

/-- Whether the tie between a coefficient and the next one goes to the lesser of them. -/
def Tie.isDown : Tie → Nat → Bool
  | .up, _ => false
  | .even, coefficient => coefficient % 2 = 0

/-- The reals that round to one positive double, in units of `10 ^ -1074`. The ends lie halfway to
the neighbouring doubles; they are kept doubled to stay whole. -/
structure Cell where
  /-- The double itself. -/
  value : Nat
  /-- Twice the lower end. -/
  low : Nat
  /-- Twice the upper end. -/
  high : Nat
  /-- Whether the ends belong to the cell, as they do when ties round to this double. -/
  closed : Bool

/-- The units of `10 ^ -1074` that make up a quantum, `5 ^ 1074`. -/
def fine : Nat :=
  Nat.pow 5 1074

/-- The cell of a positive rank. -/
def Cell.ofRank (rank : Nat) : Cell where
  value := magnitude rank * fine
  low := (magnitude (rank - 1) + magnitude rank) * fine
  high := (magnitude rank + magnitude (rank + 1)) * fine
  closed := rank % 2 = 0

namespace Cell

/-- Whether a number rounds to the double of the cell. -/
def holds (x : Cell) (n : Nat) : Bool :=
  if x.closed then x.low ≤ 2 * n && 2 * n ≤ x.high else x.low < 2 * n && 2 * n < x.high

/-- The multiple of `10 ^ s` in the cell that is nearest to its double, as a coefficient. -/
def nearestMultiple? (x : Cell) (tie : Tie) (s : Nat) : Option Nat :=
  let grid := Nat.pow 10 s
  let below := x.value / grid
  let rest := x.value % grid
  match x.holds (below * grid), x.holds ((below + 1) * grid) with
  | true, true =>
    some (if 2 * rest < grid ∨ (2 * rest = grid ∧ tie.isDown below) then below else below + 1)
  | true, false => some below
  | false, true => some (below + 1)
  | false, false => none

/-- The shortest decimal in the cell on the grids up to `10 ^ s`, nearest to its double. -/
def shortestFrom (x : Cell) (tie : Tie) : Nat → Decimal
  | 0 => ⟨x.value, -1074⟩
  | s + 1 =>
    match x.nearestMultiple? tie (s + 1) with
    | some coefficient => ⟨coefficient, (s + 1 : Nat) - 1074⟩
    | none => x.shortestFrom tie s

/-- The shortest decimal in the cell. No grid coarser than the first power of ten above the double
needs a look: beyond it lie only multiples too small or too large. -/
def shortest (x : Cell) (tie : Tie) : Decimal :=
  x.shortestFrom tie (Decimal.width x.value)

end Cell

end Qualifier.Double
