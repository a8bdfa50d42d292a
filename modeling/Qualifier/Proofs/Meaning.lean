import Qualifier.Proofs.Grammar
import Qualifier.Operand

/-!
# The meaning of trees

What a tree amounts to once its operands have been looked up, by recursion on the tree. Operands are
looked up from left to right (`Tree.resolve`), which is all that touches the world. A tree of known
operands is then evaluated strictly: a node needs the values of both of its sides, and has none of
its own if it divides by a value that counts as zero. A node of `as` keeps its left value and labels
the expression with its right side: with the spelling of a literal, or else with the text of a
value.

`Tree.evaluate` threads the label through a tree. Value and label do not depend on each other:
`Tree.evaluate_eq` splits it into `Tree.value?` and `Tree.names`, the labels in the order in which
nodes come after their sides. `Tree.faults` lists the divisions by zero in the order in which levels
of parentheses end, and by place within a level; `Tree.value?_isSome_iff` says that they are all
that can keep a tree from having a value.
-/

namespace Qualifier

/-! ### Operators on values -/

namespace Operator

/-- The value of an operator between two values, if it has one. -/
def result? (op : Operator) (left right : Value) : Option Value :=
  (op.apply left right none "").toOption.map Prod.fst

/-- The operator divides by a value that counts as zero. -/
def DividesByZero (op : Operator) (right : Value) : Prop :=
  op = .arithmetic .divide ∧ right.asNumber.isZero = true

instance (op : Operator) (right : Value) : Decidable (op.DividesByZero right) :=
  inferInstanceAs (Decidable (_ ∧ _))

theorem result?_eq_none_iff {op : Operator} {left right : Value} :
    op.result? left right = none ↔ op.DividesByZero right := by
  rcases op with op | op | op | _
  · cases op with
    | divide =>
      simp only [result?, apply_arithmetic, Arithmetic.apply, DividesByZero]
      split <;> simp_all [Except.map, Except.toOption]
    | _ => simp [result?, Arithmetic.apply, DividesByZero, Except.map, Except.toOption]
  all_goals simp [result?, DividesByZero, Except.toOption]

theorem apply_of_dividesByZero {op : Operator} {left right : Value} (position : Option Nat)
    (label : String) (h : op.DividesByZero right) :
    op.apply left right position label = .error (.divisionByZero position) := by
  obtain ⟨rfl, h⟩ := h
  simp [Arithmetic.apply, h, Except.map]

/-- The value of an operator does not depend on its place or on the label, and only `as` sets the
label. -/
theorem apply_of_result? {op : Operator} {left right value : Value} (position : Option Nat)
    (label : String) (h : op.result? left right = some value) :
    op.apply left right position label =
      .ok (value, if op = .naming then right.asText else label) := by
  rcases op with op | op | op | _
  · cases op with
    | divide =>
      simp only [result?, apply_arithmetic, Arithmetic.apply] at h ⊢
      split at h <;> simp_all [Except.map, Except.toOption]
    | _ => simp_all [result?, Arithmetic.apply, Except.map, Except.toOption]
  all_goals simp_all [result?, Except.toOption]

/-- An operator divides by zero, or it has a value, and only `as` sets the label. -/
theorem apply_cases (op : Operator) (left right : Value) (position : Option Nat)
    (label : String) :
    op.apply left right position label = .error (.divisionByZero position) ∨
      ∃ value, op.apply left right position label =
        .ok (value, if op = .naming then right.asText else label) := by
  cases h : op.result? left right with
  | none => exact .inl (apply_of_dividesByZero position label (result?_eq_none_iff.1 h))
  | some value => exact .inr ⟨value, apply_of_result? position label h⟩

/-- An operator fails only by dividing by zero. -/
theorem eq_divisionByZero_of_apply {op : Operator} {left right : Value} {position : Option Nat}
    {label : String} {error : EvaluationError}
    (h : op.apply left right position label = .error error) : error = .divisionByZero position := by
  obtain happly | ⟨_, happly⟩ := op.apply_cases left right position label
  · rw [happly] at h
    exact (Except.error.inj h).symm
  · rw [happly] at h
    cases h

end Operator

/-! ### Known operands -/

/-- An operand that has been looked up. -/
structure Known where
  /-- Its value. -/
  value : Value
  /-- Its spelling, if it is a literal. -/
  literal? : Option String
  /-- Where it stands. -/
  position : Nat

/-- The value of an operand in a state of the world, and the state after looking it up. -/
def Operand.resolve {σ : Type} (env : Environment σ) (operand : Operand) (world : σ) : Value × σ :=
  let (value, progress) := operand.lookUp env { label := "", trail := #[], world }
  (value, progress.world)

/-- Looking an operand up reads nothing but the world, and leaves the label alone. -/
theorem Operand.lookUp_eq {σ : Type} (env : Environment σ) (operand : Operand)
    (progress : Progress σ) :
    ∃ trail, operand.lookUp env progress =
      ((operand.resolve env progress.world).1,
        { label := progress.label, trail, world := (operand.resolve env progress.world).2 }) := by
  cases operand with
  | literal text => exact ⟨_, rfl⟩
  | call name =>
    simp only [resolve, lookUp]
    cases env.callback? name <;> exact ⟨_, rfl⟩
  | path root segments =>
    simp only [resolve, lookUp]
    cases env.datum? root with
    | none => exact ⟨_, rfl⟩
    | some datum =>
      dsimp only
      cases datum.descend segments <;> exact ⟨_, rfl⟩

namespace Tree

/-- The tree with its operands looked up from left to right, and the state of the world after. -/
def resolve {σ : Type} (env : Environment σ) : Tree Written → σ → Tree Known × σ
  | .leaf operand, world =>
    let (value, world) := (Operand.ofText operand.text).resolve env world
    (.leaf ⟨value, (Operand.ofText operand.text).literal?, operand.span.start⟩, world)
  | .group opening closing body, world =>
    let (body, world) := body.resolve env world
    (.group opening closing body, world)
  | .node op span left right, world =>
    let (left, world) := left.resolve env world
    let (right, world) := right.resolve env world
    (.node op span left right, world)

theorem rank_resolve {σ : Type} (env : Environment σ) (tree : Tree Written) (world : σ) :
    (tree.resolve env world).1.rank = tree.rank := by
  cases tree <;> rfl

theorem WellBound.resolve {σ : Type} (env : Environment σ) {tree : Tree Written}
    (h : tree.WellBound) (world : σ) : (tree.resolve env world).1.WellBound := by
  induction tree generalizing world with
  | leaf => trivial
  | group _ _ _ ih => exact ih h world
  | node op span left right ihl ihr =>
    obtain ⟨hl, hr, hleft, hright⟩ := h
    refine ⟨ihl hl world, ihr hr _, ?_, ?_⟩
    · rw [rank_resolve]
      exact hleft
    · rw [rank_resolve]
      exact hright

/-! ### Evaluation -/

/-- The spelling of a tree that is a literal. -/
def literal? : Tree Known → Option String
  | .leaf operand => operand.literal?
  | _ => none

/-- Evaluates a tree in an expression with the given label: its value and the label from then on,
unless a part of it divides by zero. -/
def evaluate : Tree Known → String → Option (Value × String)
  | .leaf operand, label => some (operand.value, label)
  | .group _ _ body, label => body.evaluate label
  | .node op span left right, label => do
    let (x, label) ← left.evaluate label
    let (y, label) ← right.evaluate label
    if op = .naming then some (x, right.literal?.getD y.asText)
    else (op.apply x y (some span.start) label).toOption

/-- The value of a tree, unless a part of it divides by zero. -/
def value? : Tree Known → Option Value
  | .leaf operand => some operand.value
  | .group _ _ body => body.value?
  | .node op _ left right => do
    let x ← left.value?
    let y ← right.value?
    op.result? x y

/-- The label that a tree gives on the right of `as`. -/
def name? (tree : Tree Known) : Option String :=
  tree.literal?.or (tree.value?.map Value.asText)

theorem name?_eq_some {tree : Tree Known} {value : Value} (h : tree.value? = some value) :
    tree.name? = some (tree.literal?.getD value.asText) := by
  rw [name?, h]
  cases tree.literal? <;> rfl

/-- The labels that the nodes of `as` set, each node after its sides. -/
def names : Tree Known → List String
  | .leaf _ => []
  | .group _ _ body => body.names
  | .node op _ left right =>
    left.names ++ right.names ++ if op = .naming then right.name?.toList else []

/-- Evaluation has the value of the tree and ends with the last of its labels. -/
theorem evaluate_eq (tree : Tree Known) (label : String) :
    tree.evaluate label =
      tree.value?.map fun value ↦ (value, tree.names.getLast?.getD label) := by
  induction tree generalizing label with
  | leaf => rfl
  | group _ _ _ ih => exact ih label
  | node op span left right ihl ihr =>
    rw [evaluate, ihl]
    cases hleft : left.value? with
    | none => simp [value?, hleft]
    | some x =>
      simp only [Option.map_some, Option.bind_eq_bind, Option.bind_some, ihr]
      cases hright : right.value? with
      | none => simp [value?, hright]
      | some y =>
        simp only [value?, names, hleft, hright, Option.map_some, Option.bind_eq_bind,
          Option.bind_some]
        split
        · next hop =>
          subst hop
          simp [name?_eq_some hright, Operator.result?, Except.toOption]
        · next hop =>
          rw [List.append_nil, List.getLast?_append, Option.getD_or]
          cases hvalue : op.result? x y with
          | none =>
            rw [Operator.apply_of_dividesByZero _ _ (Operator.result?_eq_none_iff.1 hvalue)]
            rfl
          | some value =>
            rw [Operator.apply_of_result? _ _ hvalue, if_neg hop]
            rfl

/-! ### Divisions by zero -/

/-- The place of a node that divides by zero. -/
def fault (op : Operator) (span : Span) (right : Tree Known) : List Nat :=
  if right.value?.any fun value ↦ op.DividesByZero value then [span.start] else []

/-- The divisions by zero of the outermost level of parentheses, from left to right. -/
def levelFaults : Tree Known → List Nat
  | .leaf _ | .group .. => []
  | .node op span left right => left.levelFaults ++ fault op span right ++ right.levelFaults

/-- The divisions by zero within parentheses, in the order in which the levels end. -/
def innerFaults : Tree Known → List Nat
  | .leaf _ => []
  | .group _ _ body => body.innerFaults ++ body.levelFaults
  | .node _ _ left right => left.innerFaults ++ right.innerFaults

/-- All divisions by zero, in the order in which the levels of parentheses end. -/
def faults (tree : Tree Known) : List Nat :=
  tree.innerFaults ++ tree.levelFaults

/-- Divisions by zero are all that keeps a tree from having a value. -/
theorem value?_isSome_iff (tree : Tree Known) : tree.value?.isSome ↔ tree.faults = [] := by
  induction tree with
  | leaf => simp [value?, faults, innerFaults, levelFaults]
  | group _ _ body ih => simpa [value?, faults, innerFaults, levelFaults] using ih
  | node op span left right ihl ihr =>
    have parts : (node op span left right).faults = [] ↔
        left.faults = [] ∧ right.faults = [] ∧ fault op span right = [] := by
      simp only [faults, innerFaults, levelFaults, List.append_eq_nil_iff]
      exact ⟨fun ⟨⟨hl, hr⟩, ⟨hl', hop⟩, hr'⟩ ↦ ⟨⟨hl, hl'⟩, ⟨hr, hr'⟩, hop⟩,
        fun ⟨⟨hl, hl'⟩, ⟨hr, hr'⟩, hop⟩ ↦ ⟨⟨hl, hr⟩, ⟨hl', hop⟩, hr'⟩⟩
    rw [parts, ← ihl, ← ihr, value?]
    cases hleft : left.value? with
    | none => simp
    | some x =>
      cases hright : right.value? with
      | none => simp
      | some y =>
        cases hvalue : op.result? x y with
        | none =>
          have := Operator.result?_eq_none_iff.1 hvalue
          simp [fault, hright, hvalue, this]
        | some value =>
          have : ¬op.DividesByZero y := fun h ↦ by
            rw [Operator.result?_eq_none_iff.2 h] at hvalue
            cases hvalue
          simp [fault, hright, hvalue, this]

end Tree

end Qualifier
