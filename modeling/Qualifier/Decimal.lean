/-!
# Decimals

A decimal is a coefficient and a power of ten. This module holds the digits of natural numbers,
read and written most significant first, and two layouts of a decimal: the positional one, which
never uses an exponent, and the scientific one, which always does.

The main statement is `ofDigits_toDigits`: writing a number and reading it back changes nothing.
-/

namespace Qualifier

/-- The number `coefficient * 10 ^ exponent`. Several decimals may denote one number. -/
structure Decimal where
  /-- The digits, read as a natural number. -/
  coefficient : Nat
  /-- The power of ten that scales them. -/
  exponent : Int
deriving DecidableEq

namespace Decimal

/-! ### Digits -/

/-- The character of a digit below ten. -/
def digitChar (d : Nat) : Char :=
  Char.ofNat (48 + d)

/-- The value of a digit character. -/
def digitValue (c : Char) : Nat :=
  c.toNat - 48

/-- The natural number that a list of digits spells. -/
def ofDigits (cs : List Char) : Nat :=
  cs.foldl (fun n c ↦ 10 * n + digitValue c) 0

/-- The digits of a natural number, without leading zeros; zero has one digit. -/
def toDigits (n : Nat) : List Char :=
  if n < 10 then [digitChar n] else toDigits (n / 10) ++ [digitChar (n % 10)]

/-- The number of digits that `toDigits` writes. -/
def width (n : Nat) : Nat :=
  if n < 10 then 1 else width (n / 10) + 1

theorem ofDigits_append_singleton (cs : List Char) (c : Char) :
    ofDigits (cs ++ [c]) = 10 * ofDigits cs + digitValue c := by
  simp [ofDigits]

/-- Zeros in front do not count. -/
theorem ofDigits_replicate_append (n : Nat) (cs : List Char) :
    ofDigits (List.replicate n '0' ++ cs) = ofDigits cs := by
  induction n with
  | zero => rfl
  | succ n ih => exact ih

theorem ofDigits_replicate (n : Nat) : ofDigits (List.replicate n '0') = 0 := by
  rw [← List.append_nil (List.replicate n '0'), ofDigits_replicate_append]
  rfl

theorem digitValue_digitChar {d : Nat} (h : d < 10) : digitValue (digitChar d) = d := by
  match d, h with
  | 0, _ | 1, _ | 2, _ | 3, _ | 4, _ | 5, _ | 6, _ | 7, _ | 8, _ | 9, _ => rfl

theorem isDigit_digitChar {d : Nat} (h : d < 10) : (digitChar d).isDigit = true := by
  match d, h with
  | 0, _ | 1, _ | 2, _ | 3, _ | 4, _ | 5, _ | 6, _ | 7, _ | 8, _ | 9, _ => decide

theorem digitValue_lt {c : Char} (h : c.isDigit = true) : digitValue c < 10 := by
  obtain ⟨-, hhigh⟩ : 48 ≤ c.toNat ∧ c.toNat ≤ 57 := Char.isDigit_iff_toNat.1 h
  rw [digitValue]
  omega

theorem digitChar_digitValue {c : Char} (h : c.isDigit = true) : digitChar (digitValue c) = c := by
  obtain ⟨hlow, -⟩ : 48 ≤ c.toNat ∧ c.toNat ≤ 57 := Char.isDigit_iff_toNat.1 h
  have hsum : 48 + (c.toNat - 48) = c.toNat := by omega
  rw [digitChar, digitValue, hsum, Char.ofNat_toNat]

/-- Written digits read back as the number they were written for. -/
theorem ofDigits_toDigits (n : Nat) : ofDigits (toDigits n) = n := by
  fun_induction toDigits n with
  | case1 n h => simp [ofDigits, digitValue_digitChar h]
  | case2 n h ih =>
    rw [ofDigits_append_singleton, ih, digitValue_digitChar (Nat.mod_lt _ (by decide))]
    omega

theorem isDigit_of_mem_toDigits {n : Nat} {c : Char} (h : c ∈ toDigits n) : c.isDigit = true := by
  fun_induction toDigits n with
  | case1 n hn => exact List.mem_singleton.1 h ▸ isDigit_digitChar hn
  | case2 n hn ih =>
    rcases List.mem_append.1 h with h | h
    · exact ih h
    · exact List.mem_singleton.1 h ▸ isDigit_digitChar (Nat.mod_lt _ (by decide))

theorem toDigits_ne_nil (n : Nat) : toDigits n ≠ [] := by
  rw [toDigits]
  split <;> simp

theorem toDigits_of_lt {n : Nat} (h : n < 10) : toDigits n = [digitChar n] := by
  rw [toDigits, if_pos h]

/-- A further digit is written behind those that are there. -/
theorem toDigits_append {n d : Nat} (hn : n ≠ 0) (hd : d < 10) :
    toDigits (10 * n + d) = toDigits n ++ [digitChar d] := by
  have hdiv : (10 * n + d) / 10 = n := by omega
  have hmod : (10 * n + d) % 10 = d := by omega
  rw [toDigits, if_neg (by omega), hdiv, hmod]

/-! ### Layout -/

/-- The decimal in positional notation: zeros stand in for a positive exponent, a point divides the
digits for a negative one, and at least one digit precedes the point. -/
def positional (x : Decimal) : List Char :=
  let digits := toDigits x.coefficient
  match x.exponent with
  | .ofNat zeros => digits ++ List.replicate zeros '0'
  | .negSucc places =>
    if places + 1 < digits.length then
      let whole := digits.length - (places + 1)
      digits.take whole ++ '.' :: digits.drop whole
    else
      '0' :: '.' :: (List.replicate (places + 1 - digits.length) '0' ++ digits)

/-- The power of ten that the leading digit counts. -/
def order (x : Decimal) : Int :=
  x.exponent + width x.coefficient - 1

/-- The decimal in scientific notation: its leading digit, a point before further digits if there
are any, and the power of ten of the leading digit, with its sign always written. -/
def scientific (x : Decimal) : List Char :=
  let digits := toDigits x.coefficient
  let point := if digits.length = 1 then [] else ['.']
  let sign := if x.order < 0 then '-' else '+'
  digits.take 1 ++ point ++ digits.drop 1 ++ 'e' :: sign :: toDigits x.order.natAbs

end Decimal

end Qualifier
