import Qualifier.Value

/-!
# Equality of values

Two equalities. The strict one compares values of one kind by content. The loose one converts
first: beside a truth value both sides count as truth values, beside nothing a value is equal if
it is blank, two numbers or numerals compare as numbers, and all else compares as text.

Numbers compare as numbers do, so zeros of either sign are equal and a NaN is equal to nothing.
-/

namespace Qualifier.Value

/-- The value is one that equals nothing under loose equality. -/
def isVoid : Value → Bool
  | .null => true
  | .bool b => !b
  | .number x => x.isZero
  | .string s => s.isEmpty

/-- Equality after conversion. -/
def isEqual (left right : Value) : Bool :=
  match left, right with
  | .bool _, _ | _, .bool _ => left.asTruth == right.asTruth
  | .null, other | other, .null => other.isVoid
  | _, _ =>
    match left.numeric?, right.numeric? with
    | some x, some y => x.eq y
    | _, _ => left.asText == right.asText

/-- Equality of kind and content. -/
def isIdentical : Value → Value → Bool
  | .null, .null => true
  | .bool a, .bool b => a == b
  | .number x, .number y => x.eq y
  | .string s, .string t => s == t
  | _, _ => false

/-! ### Symmetry -/

/-- The value is a number or a text. -/
def IsScalar : Value → Prop
  | .number _ | .string _ => True
  | .null | .bool _ => False

variable {a b : Value}

/-- A truth value makes the other side one. -/
theorem isEqual_bool (a : Value) (b : Bool) : a.isEqual (.bool b) = (a.asTruth == b) := by
  cases a <;> rfl

theorem bool_isEqual (a : Bool) (b : Value) : (bool a).isEqual b = (a == b.asTruth) :=
  rfl

/-- Numbers and texts compare as numbers if both of them count as one, and else as texts. -/
theorem isEqual_of_isScalar (ha : a.IsScalar) (hb : b.IsScalar) :
    a.isEqual b = match a.numeric?, b.numeric? with
      | some x, some y => x.eq y
      | _, _ => a.asText == b.asText := by
  cases a with
  | null | bool => cases ha
  | number | string =>
    cases b with
    | null | bool => cases hb
    | number | string => rfl

theorem isEqual_comm (a b : Value) : a.isEqual b = b.isEqual a := by
  have scalar (ha : a.IsScalar) (hb : b.IsScalar) : a.isEqual b = b.isEqual a := by
    rw [isEqual_of_isScalar ha hb, isEqual_of_isScalar hb ha]
    cases a.numeric? <;> cases b.numeric? <;> simp only [BEq.comm, Double.eq_comm]
  cases a with
  | bool a => rw [isEqual_bool, bool_isEqual, BEq.comm]
  | null =>
    cases b with
    | bool b => rw [isEqual_bool, bool_isEqual, BEq.comm]
    | null | number | string => rfl
  | number | string =>
    cases b with
    | bool b => rw [isEqual_bool, bool_isEqual, BEq.comm]
    | null => rfl
    | number | string => exact scalar trivial trivial

end Qualifier.Value
