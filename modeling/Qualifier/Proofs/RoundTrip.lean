import Qualifier.Double.Text
import Qualifier.Proofs.Numerals
import Qualifier.Value.Equality

/-!
# Numbers written and read again

The text of a finite double reads back as the double. The text spells the shortest decimal in
positional notation, so it is a numeral without an exponent (`Numeral.significand_positional`), and
the number it spells is in the cell of the double (`Double.inCell_shortest`): the search tests the
cell before it takes a decimal, and where no grid has one it falls back on the double itself. What
is in the cell rounds to the double, so nothing has to be known about how short the decimal is.

The spellings of the other doubles are no numerals. A value and its text are therefore equal after
conversion, whatever the value is.

The main statement is `Value.text_reads_back`.
-/

namespace Qualifier

open Decimal (ofDigits toDigits)

namespace Numeral

/-! ### Positional notation -/

theorem isDigits_toDigits (n : Nat) : IsDigits (toDigits n) :=
  fun _ ↦ Decimal.isDigit_of_mem_toDigits

theorem isDigits_replicate (n : Nat) : IsDigits (List.replicate n '0') := by
  intro c hc
  obtain rfl := List.eq_of_mem_replicate hc
  rfl

theorem IsDigits.append {xs ys : List Char} (hxs : IsDigits xs) (hys : IsDigits ys) :
    IsDigits (xs ++ ys) :=
  List.forall_mem_append.2 ⟨hxs, hys⟩

theorem toRat_negSucc (n places : Nat) :
    Decimal.toRat ⟨n, .negSucc places⟩ = n / 10 ^ (places + 1) := by
  rw [Decimal.toRat, zpow_negSucc, div_eq_mul_inv]

/-- A decimal in positional notation spells itself. -/
theorem significand_positional (x : Decimal) : Significand x.positional x.toRat := by
  obtain ⟨n, exponent⟩ := x
  have hdigits := isDigits_toDigits n
  have hvalue : ofDigits (toDigits n) = n := Decimal.ofDigits_toDigits n
  cases exponent with
  | ofNat zeros =>
    have hne : toDigits n ++ List.replicate zeros '0' ≠ [] := by
      simp [Decimal.toDigits_ne_nil]
    have hspells := Significand.whole hne (hdigits.append (isDigits_replicate zeros))
    have hrat : (ofDigits (toDigits n ++ List.replicate zeros '0') : ℚ) =
        Decimal.toRat ⟨n, zeros⟩ := by
      rw [Decimal.ofDigits_append, Decimal.ofDigits_replicate, hvalue, List.length_replicate,
        Decimal.toRat, zpow_natCast]
      push_cast
      ring
    rwa [hrat] at hspells
  | negSucc places =>
    rw [significand_iff_exists, toRat_negSucc]
    unfold Decimal.positional
    dsimp only
    split
    · next hlong =>
      -- The point divides the digits, and all of them count.
      have hparts := List.take_append_drop ((toDigits n).length - (places + 1)) (toDigits n)
      refine ⟨_, ['.'], _, ⟨?_, ?_, ?_, .inr rfl⟩, (List.append_cons ..), ?_⟩
      · exact fun c hc ↦ hdigits c (List.mem_of_mem_take hc)
      · exact fun c hc ↦ hdigits c (List.mem_of_mem_drop hc)
      · rw [hparts]
        exact Decimal.toDigits_ne_nil n
      · rw [hparts, hvalue, List.length_drop]
        congr 2
        omega
    · next hshort =>
      -- The zeros behind the point are digits, but they do not count.
      have hzeros : ofDigits (['0'] ++
          List.replicate (places + 1 - (toDigits n).length) '0') = 0 :=
        Decimal.ofDigits_replicate (_ + 1)
      refine ⟨['0'], ['.'], _, ⟨isDigits_replicate 1, (isDigits_replicate _).append hdigits,
        by simp, .inr rfl⟩, rfl, ?_⟩
      rw [← List.append_assoc, Decimal.ofDigits_append, hzeros, hvalue, Nat.zero_mul,
        Nat.zero_add, List.length_append, List.length_replicate]
      congr 2
      omega

end Numeral

namespace Double

/-! ### The shortest decimal -/

theorem fine_pos : 0 < fine := by
  decide +kernel

namespace Cell

section

variable {rank : Nat}

/-- The cells that are searched are the cells of the doubles, in a finer unit. -/
theorem inCell_of_holds {n : Nat} (h : (ofRank rank).holds n = true) :
    InCell (n / fine : ℚ) rank := by
  have hhigh : (ofRank rank).high = border rank * fine := rfl
  have hlow (below : Nat) (heq : rank = below + 1) : (ofRank rank).low = border below * fine := by
    subst heq
    rfl
  have hclosed : (ofRank rank).closed = decide (rank % 2 = 0) := rfl
  rw [holds, hclosed, hhigh] at h
  split at h
  · next heven =>
    simp only [Bool.and_eq_true, decide_eq_true_eq] at h heven
    refine inCell_div fine_pos (fun below heq ↦ ?_) (by omega)
    rw [hlow below heq] at h
    omega
  · simp only [Bool.and_eq_true, decide_eq_true_eq] at h
    refine inCell_div fine_pos (fun below heq ↦ .inl ?_) (.inl h.2)
    rw [← hlow below heq]
    exact h.1

/-- A positive double is in its own cell. -/
theorem holds_value (h : rank ≠ 0) : (ofRank rank).holds (ofRank rank).value = true := by
  obtain ⟨below, rfl⟩ := Nat.exists_eq_succ_of_ne_zero h
  have hbelow := Nat.mul_lt_mul_of_pos_right (magnitude_lt_succ below) fine_pos
  have habove := Nat.mul_lt_mul_of_pos_right (magnitude_lt_succ (below + 1)) fine_pos
  have hlower : (ofRank (below + 1)).low < 2 * (ofRank (below + 1)).value := by
    show (magnitude below + magnitude (below + 1)) * fine < 2 * (magnitude (below + 1) * fine)
    rw [Nat.add_mul]
    omega
  have hupper : 2 * (ofRank (below + 1)).value < (ofRank (below + 1)).high := by
    show 2 * (magnitude (below + 1) * fine) <
      (magnitude (below + 1) + magnitude (below + 1 + 1)) * fine
    rw [Nat.add_mul]
    omega
  rw [holds]
  split
  · simp [hlower.le, hupper.le]
  · simp [hlower, hupper]

end

variable {x : Cell} {tie : Tie}

/-- A multiple is in the cell if it is taken. -/
theorem holds_of_nearestMultiple? {s coefficient : Nat}
    (h : x.nearestMultiple? tie s = some coefficient) : x.holds (coefficient * 10 ^ s) = true := by
  unfold nearestMultiple? at h
  dsimp only [Nat.pow_eq] at h
  split at h
  · next hbelow habove =>
    split at h
    · cases h
      exact hbelow
    · cases h
      exact habove
  · next hbelow _ =>
    cases h
    exact hbelow
  · next _ habove =>
    cases h
    exact habove
  · cases h

theorem exists_shortestFrom (h : x.holds x.value = true) (tie : Tie) (s : Nat) :
    ∃ k : Nat, (x.shortestFrom tie s).exponent = k - 1074 ∧
      x.holds ((x.shortestFrom tie s).coefficient * 10 ^ k) = true := by
  induction s with
  | zero => exact ⟨0, rfl, by simpa [shortestFrom] using h⟩
  | succ s ih =>
    rw [shortestFrom]
    split
    · next coefficient hfound => exact ⟨s + 1, rfl, holds_of_nearestMultiple? hfound⟩
    · exact ih

/-- A cell that holds its double holds the shortest decimal. -/
theorem exists_shortest (h : x.holds x.value = true) (tie : Tie) :
    ∃ k : Nat, (x.shortest tie).exponent = k - 1074 ∧
      x.holds ((x.shortest tie).coefficient * 10 ^ k) = true :=
  exists_shortestFrom h tie _

end Cell

theorem toRat_mul_unit {x : Decimal} {k : Nat} (h : x.exponent = k - 1074) :
    x.toRat * unit = ((x.coefficient * 10 ^ k : Nat) : ℚ) / fine := by
  have hten : 10 ^ 1074 = unit * fine := by decide +kernel
  have hcast := congrArg (Nat.cast : ℕ → ℚ) hten
  simp only [Nat.cast_mul, Nat.cast_pow, Nat.cast_ofNat] at hcast
  have hfine : (fine : ℚ) ≠ 0 := Nat.cast_ne_zero.2 fine_pos.ne'
  have hunit := cast_unit_pos.ne'
  have hrat : Decimal.toRat ⟨x.coefficient, k - 1074⟩ =
      x.coefficient / 10 ^ 1074 * 10 ^ (k : ℤ) := Numeral.toRat_sub ..
  rw [← h] at hrat
  rw [hrat, hcast, zpow_natCast, Nat.cast_mul, Nat.cast_pow, Nat.cast_ofNat]
  field_simp

/-- The shortest decimal of a positive double is in the cell of the double. -/
theorem inCell_shortest {rank : Nat} (h : rank ≠ 0) (tie : Tie) :
    InCell (((Cell.ofRank rank).shortest tie).toRat * unit) rank := by
  obtain ⟨k, hexponent, hholds⟩ := Cell.exists_shortest (Cell.holds_value h) tie
  rw [toRat_mul_unit hexponent]
  exact Cell.inCell_of_holds hholds

/-! ### The text of a double -/

theorem exists_sign_append (negative : Bool) (digits : List Char) :
    ∃ sign, Numeral.Sign sign negative ∧ (∀ c ∈ sign, c = '-') ∧
      (String.ofList (if negative then '-' :: digits else digits)).toList = sign ++ digits := by
  rw [String.toList_ofList]
  cases negative with
  | false => exact ⟨[], .absent, by simp, rfl⟩
  | true => exact ⟨['-'], .minus, by simp, rfl⟩

theorem exists_text_eq (negative : Bool) {rank : Fin rankBound} (h : rank.val ≠ 0) :
    ∃ sign, Numeral.Sign sign negative ∧ (∀ c ∈ sign, c = '-') ∧
      (finite negative rank).text.toList =
        sign ++ ((Cell.ofRank rank).shortest .up).positional := by
  rw [text, if_neg h]
  exact exists_sign_append negative _

/-- The text of a finite double has no exponent. -/
theorem forall_mem_text (negative : Bool) (rank : Fin rankBound) :
    ∀ c ∈ (finite negative rank).text.toList, c.isDigit = true ∨ c = '.' ∨ c = '-' := by
  by_cases h : rank.val = 0
  · rw [text, if_pos h]
    simp
  · obtain ⟨sign, -, hsign, htext⟩ := exists_text_eq negative h
    rw [htext, List.forall_mem_append]
    refine ⟨fun c hc ↦ .inr (.inr (hsign c hc)), fun c hc ↦ ?_⟩
    obtain hc | hc := (Numeral.significand_positional _).forall_mem c hc
    · exact .inl hc
    · exact .inr (.inl hc)

theorem trim_text (negative : Bool) (rank : Fin rankBound) :
    Text.trim (finite negative rank).text.toList = (finite negative rank).text.toList := by
  refine Text.trim_eq_self fun c hc ↦ ?_
  obtain hc | rfl | rfl := forall_mem_text negative rank c hc
  · exact Text.isSpace_of_isDigit hc
  · decide
  · decide

/-- The text of a finite double reads back as the double, except that the sign of zero is lost. -/
theorem ofText?_text_finite (negative : Bool) (rank : Fin rankBound) :
    ofText? (finite negative rank).text =
      some (if rank.val = 0 then zero false else finite negative rank) := by
  split
  · next h =>
    rw [text, if_pos h]
    decide +kernel
  · next h =>
    obtain ⟨sign, hsign, -, htext⟩ := exists_text_eq negative h
    have hsignificand := Numeral.significand_positional ((Cell.ofRank rank).shortest .up)
    have hspells := Numeral.Spells.intro hsign hsignificand .absent
    rw [List.append_nil, ← htext, zpow_zero, mul_one] at hspells
    obtain ⟨x, hx, rfl, hrat⟩ := hspells.exists_ofChars?
    have hcell := inCell_shortest h .up
    rw [← hrat] at hcell
    rw [ofText?, trim_text, hx, Option.map_some, Numeral.toDouble, ofDecimal_eq hcell, ofRank,
      dif_pos rank.isLt]

theorem ofText?_text_nan : ofText? nan.text = none := by
  decide

theorem ofText?_text_infinite (negative : Bool) : ofText? (infinite negative).text = none := by
  cases negative <;> decide

/-- No text spells a NaN. -/
theorem ne_nan_of_ofText? {text : String} {x : Double} (h : ofText? text = some x) : x ≠ .nan := by
  obtain ⟨numeral, -, rfl⟩ := Option.map_eq_some_iff.1 h
  exact (rounds_ofDecimal numeral.negative numeral.magnitude).ne_nan

theorem eq_self_of_ofText? {text : String} {x : Double} (h : ofText? text = some x) :
    x.eq x = true :=
  eq_self_iff.2 (ne_nan_of_ofText? h)

end Double

namespace Value

/-! ### Values and their texts -/

/-- A number and its text are equal: as numbers if it is finite, else as texts. -/
theorem isEqual_text (x : Double) : (number x).isEqual (.string x.text) = true := by
  have hscalar := isEqual_of_isScalar (a := number x) (b := string x.text) trivial trivial
  rw [hscalar]
  cases x with
  | nan =>
    simp only [numeric?, Double.ofText?_text_nan, asText, beq_self_eq_true]
  | infinite negative =>
    simp only [numeric?, Double.ofText?_text_infinite, asText, beq_self_eq_true]
  | finite negative rank =>
    simp only [numeric?, Double.ofText?_text_finite]
    split
    · next h =>
      refine (Double.eq_iff_key_eq (by simp)).2 ?_
      cases negative <;> simp [Double.key, Double.zero, h]
    · exact Double.eq_self_iff.2 (by simp)

theorem isEqual_string_self (s : String) : (string s).isEqual (.string s) = true := by
  rw [isEqual_of_isScalar (a := string s) (b := string s) trivial trivial, numeric?]
  cases h : Double.ofText? s with
  | none => exact beq_self_eq_true _
  | some x => exact Double.eq_self_of_ofText? h

/-- A value equals its text. -/
theorem isEqual_asText (v : Value) : v.isEqual (.string v.asText) = true := by
  cases v with
  | null => rfl
  | bool b => cases b <;> decide
  | number x => exact isEqual_text x
  | string s => exact isEqual_string_self s

/-- Numbers are written so that they read back, and no conversion to text is seen by the equality
that converts: the text of a finite double has no exponent and reads back as the double, a zero
without its sign; the texts of the other doubles are no numerals; and every value equals its text,
on either side of it. -/
theorem text_reads_back :
    (∀ negative rank,
      Double.ofText? (Double.finite negative rank).text =
          some (if rank.val = 0 then .zero false else .finite negative rank) ∧
        ∀ c ∈ (Double.finite negative rank).text.toList,
          c.isDigit = true ∨ c = '.' ∨ c = '-') ∧
      Double.ofText? Double.nan.text = none ∧
      (∀ negative, Double.ofText? (Double.infinite negative).text = none) ∧
      ∀ v : Value, v.isEqual (.string v.asText) = true ∧ (string v.asText).isEqual v = true := by
  refine ⟨fun negative rank ↦ ⟨Double.ofText?_text_finite negative rank,
    Double.forall_mem_text negative rank⟩, Double.ofText?_text_nan, Double.ofText?_text_infinite,
    fun v ↦ ⟨isEqual_asText v, ?_⟩⟩
  rw [isEqual_comm]
  exact isEqual_asText v

/-- The double next to a tenth is written with one digit behind the point, and read again from
it. -/
theorem text_reads_back_tenth :
    (Double.finite false ⟨0x3FB999999999999A, by decide⟩).text = "0.1" ∧
      '.' ∈ "0.1".toList ∧ ('.'.isDigit = true ∨ '.' = '.' ∨ '.' = '-') ∧
      Double.ofText? "0.1" = some (.finite false ⟨0x3FB999999999999A, by decide⟩) := by
  have htext : (Double.finite false ⟨0x3FB999999999999A, by decide⟩).text = "0.1" := by
    decide +kernel
  have hmem : '.' ∈ "0.1".toList := by decide
  obtain ⟨hread, hchars⟩ := text_reads_back.1 false ⟨0x3FB999999999999A, by decide⟩
  rw [htext] at hread hchars
  exact ⟨htext, hmem, hchars '.' hmem, hread⟩

end Value

end Qualifier
