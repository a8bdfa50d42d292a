import Qualifier.Decimal

/-!
# Unsigned words

The texts that spell an unsigned 64-bit number: decimal digits after an optional plus sign. Leading
zeros are allowed, and a number that does not fit is refused rather than wrapped around.
-/

namespace Qualifier.Text

/-- The number of words, `2 ^ 64`. -/
abbrev wordBound : Nat :=
  0x10000000000000000

/-- The digits of an unsigned number, its sign removed. -/
def dropPlus : List Char → List Char
  | '+' :: rest => rest
  | cs => cs

/-- The unsigned 64-bit number that a whole text spells. -/
def word? (cs : List Char) : Option Nat :=
  let digits := dropPlus cs
  if digits ≠ [] ∧ digits.all Char.isDigit ∧ Decimal.ofDigits digits < wordBound then
    some (Decimal.ofDigits digits)
  else none

theorem word?_lt {cs : List Char} {n : Nat} (h : word? cs = some n) : n < wordBound := by
  simp only [word?] at h
  split at h
  · next hd => exact Option.some.inj h ▸ hd.2.2
  · simp at h

end Qualifier.Text
