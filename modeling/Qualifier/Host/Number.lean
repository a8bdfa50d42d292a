import Qualifier.Double.Rounding
import Qualifier.Double.Shortest

/-!
# Numbers of host data

A number of the JSON data model is an integer of 64 bits or a finite double. Expressions compute
with doubles only, so to them the difference is lost; it shows where data are inspected and where
numbers are keys. There an integer is its digits and a double is told from it by a point or an
exponent.
-/

namespace Qualifier.Host

/-- The integers of host data: those of 64 bits, signed or unsigned. -/
abbrev Number.Fits (n : Int) : Prop :=
  -0x8000000000000000 ≤ n ∧ n < 0x10000000000000000

/-- A number of host data. -/
inductive Number where
  /-- An integer. -/
  | integer (value : Int) (fits : Number.Fits value)
  /-- A finite double, by sign and rank. -/
  | real (negative : Bool) (rank : Fin Double.rankBound)
deriving DecidableEq

namespace Number

/-- The integer of a sign and a magnitude, if host data can hold it. The negative zero is no
integer. -/
def ofInteger? (negative : Bool) (magnitude : Nat) : Option Number :=
  let n : Int := if negative then -(magnitude : Int) else magnitude
  if fits : Fits n then
    if negative ∧ magnitude = 0 then none else some (.integer n fits)
  else none

/-- The number that a double is, if it is finite. -/
def ofDouble? : Double → Option Number
  | .finite negative rank => some (.real negative rank)
  | .nan | .infinite _ => none

/-- The number as a double; an integer goes to the nearest one. -/
def toDouble : Number → Double
  | .integer n _ => .ofInt n
  | .real negative rank => .finite negative rank

/-- Host data lose nothing of a double that they can hold. -/
theorem toDouble_of_ofDouble? {x : Double} {n : Number} (h : ofDouble? x = some n) :
    n.toDouble = x := by
  cases x with
  | finite negative rank =>
    obtain rfl := Option.some.inj h
    rfl
  | nan => exact nomatch h
  | infinite negative => exact nomatch h

/-! ### Text -/

/-- The text of a finite magnitude: its shortest decimal, the even one of two equally near. It is
positional from `10 ^ -5` up to `10 ^ 16` and then always shows a point; beyond these bounds it is
scientific. -/
def magnitudeText (rank : Nat) : List Char :=
  if rank = 0 then ['0', '.', '0']
  else
    let x := (Double.Cell.ofRank rank).shortest .even
    if x.order < -5 ∨ 15 < x.order then x.scientific
    else if x.exponent < 0 then x.positional
    else x.positional ++ ['.', '0']

/-- The text of a number. A minus sign leads every negative number, the negative zero among them. -/
def text (x : Number) : String :=
  let (negative, digits) := match x with
    | .integer n _ => (decide (n < 0), Decimal.toDigits n.natAbs)
    | .real negative rank => (negative, magnitudeText rank)
  String.ofList (if negative then '-' :: digits else digits)

end Number

end Qualifier.Host
