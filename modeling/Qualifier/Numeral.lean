import Qualifier.Double.Rounding
import Qualifier.Text.Space

/-!
# Numerals

The texts that count as numbers. A numeral is an optional sign, digits with an optional point, and
an optional exponent with digits of its own:

  `[+-]? (D+ (. D*)? | . D+) ([eE] [+-]? D+)?`

where `D` is a digit of ASCII. White space around it is ignored. The value is the exact decimal,
rounded once to a double.
-/

namespace Qualifier

/-- A numeral that has been read: its sign and its exact magnitude. -/
structure Numeral where
  /-- Whether a minus sign leads. -/
  negative : Bool
  /-- The magnitude. -/
  magnitude : Decimal
deriving DecidableEq

namespace Numeral

/-- A leading sign, if there is one, and what follows it. -/
def readSign : List Char → Bool × List Char
  | '-' :: rest => (true, rest)
  | '+' :: rest => (false, rest)
  | cs => (false, cs)

/-- The leading digits and what follows them. -/
def readDigits (cs : List Char) : List Char × List Char :=
  (cs.takeWhile Char.isDigit, cs.dropWhile Char.isDigit)

theorem append_readDigits (cs : List Char) : (readDigits cs).1 ++ (readDigits cs).2 = cs :=
  List.takeWhile_append_dropWhile

theorem isDigit_of_mem_readDigits {cs : List Char} {c : Char} (h : c ∈ (readDigits cs).1) :
    c.isDigit = true :=
  List.all_eq_true.1 List.all_takeWhile c h

/-- The digits after a leading point, if there is one, and what follows them. -/
def readFraction : List Char → List Char × List Char
  | '.' :: rest => readDigits rest
  | cs => ([], cs)

/-- The leading exponent, if there is one, and what follows it; a text without one counts as having
the exponent zero. An exponent needs digits. -/
def readExponent? : List Char → Option (Int × List Char)
  | [] => some (0, [])
  | mark :: rest =>
    if mark = 'e' ∨ mark = 'E' then
      let (negative, rest) := readSign rest
      let (digits, rest) := readDigits rest
      if digits = [] then none
      else
        let n : Int := Decimal.ofDigits digits
        some (if negative then -n else n, rest)
    else some (0, mark :: rest)

/-- The numeral that a whole text spells, if it spells one. -/
def ofChars? (cs : List Char) : Option Numeral :=
  let (negative, cs) := readSign cs
  let (whole, cs) := readDigits cs
  let (fraction, cs) := readFraction cs
  let digits := whole ++ fraction
  match readExponent? cs with
  | some (exponent, []) =>
    if digits = [] then none
    else some ⟨negative, Decimal.ofDigits digits, exponent - fraction.length⟩
  | _ => none

/-- The numeral as a double. -/
def toDouble (x : Numeral) : Double :=
  .ofDecimal x.negative x.magnitude

end Numeral

/-- The number that a text spells once white space around it is gone, if it spells a numeral. -/
def Double.ofText? (text : String) : Option Double :=
  (Numeral.ofChars? (Text.trim text.toList)).map Numeral.toDouble

end Qualifier
