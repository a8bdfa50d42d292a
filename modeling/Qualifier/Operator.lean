import Qualifier.Double.Arithmetic
import Qualifier.Error
import Qualifier.Value.Equality

/-!
# Operators

The binary operators, by family: arithmetic, comparison, logic, and `as`, which names the
expression. A family has a function that applies its operators to values and refuses all others;
`Operator.apply` joins them and threads the label of the expression, which only `as` changes.
Hosts that hold operators as text apply them by their spellings (`Operator.applySymbol`).

Operators bind in five tiers, from the tightest to the loosest, and from left to right within a
tier.
-/

namespace Qualifier

/-- The operators on numbers. -/
inductive Arithmetic where
  | multiply | divide | add | subtract
deriving DecidableEq

/-- The operators that compare. -/
inductive Comparison where
  | equal | notEqual | identical | notIdentical
  | less | greater | greaterEqual | lessEqual | lessGreater
deriving DecidableEq

/-- The operators on truth values. -/
inductive Logic where
  | and | or
deriving DecidableEq

/-- A binary operator. -/
inductive Operator where
  /-- An operator on numbers. -/
  | arithmetic (op : Arithmetic)
  /-- An operator that compares. -/
  | comparison (op : Comparison)
  /-- An operator on truth values. -/
  | logic (op : Logic)
  /-- The operator `as`: it keeps its left value and labels the expression with its right one. -/
  | naming
deriving DecidableEq

/-- How tightly an operator binds. -/
inductive Tier where
  | multiplicative | additive | comparison | logical | naming
deriving DecidableEq

namespace Tier

/-- The tiers, the tightest first. -/
def all : List Tier :=
  [.multiplicative, .additive, .comparison, .logical, .naming]

/-- The place of a tier among all tiers. -/
def index : Tier → Nat
  | .multiplicative => 0
  | .additive => 1
  | .comparison => 2
  | .logical => 3
  | .naming => 4

theorem mem_all (tier : Tier) : tier ∈ all := by
  cases tier <;> simp [all]

end Tier

namespace Operator

/-- The operators written with symbols. None comes after one that begins its spelling, so the first
in this order whose spelling begins a text is the one with the longest such spelling. -/
def symbolic : List Operator :=
  [.comparison .identical, .comparison .notIdentical, .comparison .equal, .comparison .notEqual,
    .comparison .lessEqual, .comparison .lessGreater, .comparison .greaterEqual,
    .comparison .less, .comparison .greater, .logic .and, .logic .or, .arithmetic .multiply,
    .arithmetic .divide, .arithmetic .add, .arithmetic .subtract]

/-- All operators: `as` is the only one that is spelled as a word. -/
def all : List Operator :=
  symbolic ++ [.naming]

/-- The spelling of an operator. -/
def symbol : Operator → String
  | .arithmetic .multiply => "*"
  | .arithmetic .divide => "/"
  | .arithmetic .add => "+"
  | .arithmetic .subtract => "-"
  | .comparison .equal => "=="
  | .comparison .notEqual => "!="
  | .comparison .identical => "==="
  | .comparison .notIdentical => "!=="
  | .comparison .less => "<"
  | .comparison .greater => ">"
  | .comparison .greaterEqual => ">="
  | .comparison .lessEqual => "<="
  | .comparison .lessGreater => "<>"
  | .logic .and => "&&"
  | .logic .or => "||"
  | .naming => "as"

/-- The tier of an operator. -/
def tier : Operator → Tier
  | .arithmetic .multiply | .arithmetic .divide => .multiplicative
  | .arithmetic .add | .arithmetic .subtract => .additive
  | .comparison _ => .comparison
  | .logic _ => .logical
  | .naming => .naming

/-- The operator that a whole text spells. -/
def ofSymbol (text : String) : Except EvaluationError Operator :=
  match all.find? (·.symbol = text) with
  | some op => .ok op
  | none => .error (.unknownOperator text)

theorem mem_all (op : Operator) : op ∈ all := by
  rcases op with op | op | op | _ <;> (try cases op) <;> simp [all, symbolic]

/-- An operator's own spelling names it. -/
theorem ofSymbol_symbol (op : Operator) : ofSymbol op.symbol = .ok op := by
  rcases op with op | op | op | _ <;> (try cases op) <;> rfl

/-- No two operators share a spelling. -/
theorem symbol_injective {a b : Operator} (h : a.symbol = b.symbol) : a = b := by
  have hb := ofSymbol_symbol a
  rw [h, ofSymbol_symbol b] at hb
  exact (Except.ok.inj hb).symm

/-! ### Families -/

/-- The operator as one on numbers. -/
def toArithmetic : Operator → Except EvaluationError Arithmetic
  | .arithmetic op => .ok op
  | op => .error (.unknownOperator op.symbol)

/-- The operator as one that compares. -/
def toComparison : Operator → Except EvaluationError Comparison
  | .comparison op => .ok op
  | op => .error (.unknownOperator op.symbol)

/-- The operator as one on truth values. -/
def toLogic : Operator → Except EvaluationError Logic
  | .logic op => .ok op
  | op => .error (.unknownOperator op.symbol)

end Operator

/-! ### Application -/

/-- An operator on numbers, applied. The divisor must not count as zero. -/
def Arithmetic.apply (op : Arithmetic) (left right : Value) (position : Option Nat) :
    Except EvaluationError Value :=
  let x := left.asNumber
  let y := right.asNumber
  match op with
  | .multiply => .ok (.number (x * y))
  | .add => .ok (.number (x + y))
  | .subtract => .ok (.number (x - y))
  | .divide => if y.isZero then .error (.divisionByZero position) else .ok (.number (x / y))

/-- Whether a comparison asks for inequality, and so turns the outcome of a test for equality. -/
def Comparison.negates : Comparison → Bool
  | .notEqual | .notIdentical | .lessGreater => true
  | _ => false

/-- Whether an operator turns the outcome of a test for equality. -/
def Operator.negates : Operator → Bool
  | .comparison op => op.negates
  | _ => false

/-- Whether a comparison holds. Order is order of numbers. -/
def Comparison.holds (op : Comparison) (left right : Value) : Bool :=
  match op with
  | .equal | .notEqual | .lessGreater => left.isEqual right ^^ op.negates
  | .identical | .notIdentical => left.isIdentical right ^^ op.negates
  | .less => left.asNumber.lt right.asNumber
  | .greater => right.asNumber.lt left.asNumber
  | .lessEqual => left.asNumber.le right.asNumber
  | .greaterEqual => right.asNumber.le left.asNumber

/-- Whether a combination of truth values holds. -/
def Logic.holds (op : Logic) (left right : Value) : Bool :=
  match op with
  | .and => left.asTruth && right.asTruth
  | .or => left.asTruth || right.asTruth

namespace Operator

/-- The operator applied as one on numbers. One of another family is unknown there. -/
def applyArithmetic (op : Operator) (left right : Value) (position : Option Nat) :
    Except EvaluationError Value :=
  op.toArithmetic.bind (·.apply left right position)

/-- The operator applied as one that compares. One of another family is unknown there. -/
def applyComparison (op : Operator) (left right : Value) : Except EvaluationError Value :=
  op.toComparison.map fun op ↦ .bool (op.holds left right)

/-- The operator applied as one on truth values. One of another family is unknown there. -/
def applyLogic (op : Operator) (left right : Value) : Except EvaluationError Value :=
  op.toLogic.map fun op ↦ .bool (op.holds left right)

/-- The operator applied to two values in an expression with the given label: the result, and the
label from then on. -/
def apply (op : Operator) (left right : Value) (position : Option Nat) (label : String) :
    Except EvaluationError (Value × String) :=
  match op with
  | .arithmetic _ => (op.applyArithmetic left right position).map (·, label)
  | .comparison _ => (op.applyComparison left right).map (·, label)
  | .logic _ => (op.applyLogic left right).map (·, label)
  | .naming => .ok (left, right.asText)

/-- The operator that a text spells, applied where no source is at hand to point into. A text that
spells none is an unknown operator. -/
def applySymbol (symbol : String) (left right : Value) (label : String) :
    Except EvaluationError (Value × String) :=
  (ofSymbol symbol).bind (·.apply left right none label)

section

variable (op : Operator) (left right : Value) (position : Option Nat) (label : String)

@[simp] theorem apply_arithmetic (op : Arithmetic) :
    (arithmetic op).apply left right position label =
      (op.apply left right position).map (·, label) :=
  rfl

@[simp] theorem apply_comparison (op : Comparison) :
    (comparison op).apply left right position label = .ok (.bool (op.holds left right), label) :=
  rfl

@[simp] theorem apply_logic (op : Logic) :
    (logic op).apply left right position label = .ok (.bool (op.holds left right), label) :=
  rfl

@[simp] theorem apply_naming : naming.apply left right position label = .ok (left, right.asText) :=
  rfl

/-- From its own spelling an operator is applied as it is itself. -/
theorem applySymbol_symbol :
    applySymbol op.symbol left right label = op.apply left right none label := by
  rw [applySymbol, ofSymbol_symbol]
  rfl

end

end Operator

end Qualifier
