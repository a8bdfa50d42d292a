import Qualifier.Operator
import Qualifier.Proofs.RoundTrip

/-!
# The comparisons as one family

How the comparisons of values go together. Equality of kind and content implies equality after
conversion, and that one is symmetric and, but for the NaN, reflexive. It is not transitive: the
null value equals both the empty text and zero, which differ (`Value.not_isEqual_trans`), and the
number NaN equals its text and not itself.

On texts and finite numbers it is an equivalence. Such a value has a *sense*, its place among the
numbers if it is a number or a numeral and its text otherwise, and two of them are equal exactly if
they have the same sense (`Value.isEqual_iff_sense_eq`). This rests on two facts about numerals: no
numeral spells a NaN, and finite numbers are written as numerals, so that what counts as a number
never shares its text with what does not.

The main statement is `Value.equalities_cohere`.
-/

namespace Qualifier.Value

/-- The value is a text or a finite number. -/
def IsTextOrFinite : Value → Prop
  | .string _ | .number (.finite ..) => True
  | _ => False

/-- What a text or a finite number stands for when it is compared: its place among the numbers if
it counts as one, and otherwise its text. -/
def sense (v : Value) : Option Int ⊕ String :=
  match v.numeric? with
  | some x => .inl x.key
  | none => .inr v.asText

section

variable {a b : Value}

theorem IsTextOrFinite.isScalar (h : a.IsTextOrFinite) : a.IsScalar := by
  cases a with
  | null | bool => exact h.elim
  | number | string => trivial

theorem IsTextOrFinite.ne_nan (h : a.IsTextOrFinite) {x : Double} (hx : a.numeric? = some x) :
    x ≠ .nan := by
  cases a with
  | null | bool => exact h.elim
  | string s => exact Double.ne_nan_of_ofText? hx
  | number y =>
    obtain rfl := Option.some.inj hx
    cases y with
    | nan => exact h.elim
    | infinite | finite => nofun

/-- A text or a finite number counts as a number exactly if its text does. -/
theorem IsTextOrFinite.isSome_numeric? (h : a.IsTextOrFinite) :
    a.numeric?.isSome = (Double.ofText? a.asText).isSome := by
  cases a with
  | null | bool => exact h.elim
  | string s => rfl
  | number x =>
    cases x with
    | nan | infinite => exact h.elim
    | finite negative rank =>
      rw [numeric?, asText, Double.ofText?_text_finite]
      rfl

/-- Texts and finite numbers are equal exactly if they have the same sense. -/
theorem isEqual_iff_sense_eq (ha : a.IsTextOrFinite) (hb : b.IsTextOrFinite) :
    a.isEqual b = true ↔ a.sense = b.sense := by
  -- What counts as a number and what does not have different texts.
  have htext (hne : a.numeric?.isSome ≠ b.numeric?.isSome) : a.asText ≠ b.asText := by
    intro heq
    rw [ha.isSome_numeric?, hb.isSome_numeric?, heq] at hne
    exact hne rfl
  rw [isEqual_of_isScalar ha.isScalar hb.isScalar, sense, sense]
  cases hx : a.numeric? with
  | none =>
    cases hy : b.numeric? with
    | none => simp
    | some y =>
      rw [hx, hy] at htext
      simpa using htext
  | some x =>
    cases hy : b.numeric? with
    | none =>
      rw [hx, hy] at htext
      simpa using htext
    | some y => simpa using Double.eq_iff_key_eq (ha.ne_nan hx)

theorem isEqual_equivalence :
    Equivalence fun a b : {v : Value // v.IsTextOrFinite} ↦ a.1.isEqual b.1 = true where
  refl a := (isEqual_iff_sense_eq a.2 a.2).2 rfl
  symm {a b} h := by rwa [isEqual_comm]
  trans {a b c} hab hbc := (isEqual_iff_sense_eq a.2 c.2).2 <|
    ((isEqual_iff_sense_eq a.2 b.2).1 hab).trans ((isEqual_iff_sense_eq b.2 c.2).1 hbc)

/-- Beyond texts and finite numbers it is none: the null value equals the empty text and zero. -/
theorem not_isEqual_trans :
    ¬∀ a b c : Value, a.isEqual b = true → b.isEqual c = true → a.isEqual c = true := by
  intro htrans
  have hdiffer : (string "").isEqual (.number (.zero false)) = false := by decide
  exact absurd (htrans (.string "") .null (.number (.zero false)) rfl rfl) (by simp [hdiffer])

/-- Every value equals itself, except for the NaN. -/
theorem isEqual_self_iff : a.isEqual a = true ↔ a ≠ .number .nan := by
  cases a with
  | null => simp [isEqual, isVoid]
  | bool b => simp [isEqual]
  | number x =>
    have hself : (number x).isEqual (number x) = x.eq x := rfl
    rw [hself, Double.eq_self_iff, ne_eq, ne_eq, number.injEq]
  | string s => simp [isEqual_string_self]

/-- Values of one kind and content are equal. -/
theorem isEqual_of_isIdentical (h : a.isIdentical b = true) : a.isEqual b = true := by
  unfold isIdentical at h
  split at h
  · rfl
  · exact h
  · exact h
  · next s t =>
    obtain rfl := eq_of_beq h
    exact isEqual_string_self s
  · cases h

end

/-- The comparisons are one family. Equality after conversion is symmetric, follows from equality of
kind and content, holds of every value and itself except for the NaN, and is an equivalence on texts
and finite numbers. The operators for inequality are the negations of those for equality, and each
operator for order is another one with its sides exchanged. -/
theorem equalities_cohere :
    (∀ a b : Value, a.isEqual b = b.isEqual a) ∧
      (∀ a b : Value, a.isIdentical b = true → a.isEqual b = true) ∧
      (∀ a : Value, a.isEqual a = true ↔ a ≠ .number .nan) ∧
      (Equivalence fun a b : {v : Value // v.IsTextOrFinite} ↦ a.1.isEqual b.1 = true) ∧
      ∀ a b : Value,
        Comparison.notEqual.holds a b = !Comparison.equal.holds a b ∧
          Comparison.lessGreater.holds a b = !Comparison.equal.holds a b ∧
          Comparison.notIdentical.holds a b = !Comparison.identical.holds a b ∧
          Comparison.less.holds a b = Comparison.greater.holds b a ∧
          Comparison.lessEqual.holds a b = Comparison.greaterEqual.holds b a := by
  refine ⟨isEqual_comm, fun _ _ ↦ isEqual_of_isIdentical, fun _ ↦ isEqual_self_iff,
    isEqual_equivalence, fun a b ↦ ⟨?_, ?_, ?_, rfl, rfl⟩⟩
  all_goals simp [Comparison.holds, Comparison.negates]

/-- The two zeros are of one kind and content, so they are equal; and two ways to write one number
are, through the number. -/
theorem equalities_cohere_zero :
    (number (.zero true)).isIdentical (.number (.zero false)) = true ∧
      (number (.zero true)).isEqual (.number (.zero false)) = true ∧
      (string "1.0").isEqual (.string "1") = true := by
  obtain ⟨-, hidentical, -, hequivalence, -⟩ := equalities_cohere
  have hzero : (number (.zero true)).isIdentical (.number (.zero false)) = true := by decide
  have hone : (string "1.0").isEqual (.number .one) = true := by decide +kernel
  have hone' : (number .one).isEqual (.string "1") = true := by decide +kernel
  exact ⟨hzero, hidentical _ _ hzero, hequivalence.trans
    (x := ⟨string "1.0", trivial⟩) (y := ⟨number .one, trivial⟩) (z := ⟨string "1", trivial⟩)
    hone hone'⟩

end Qualifier.Value
