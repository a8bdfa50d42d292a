import Qualifier.Proofs.Reading

/-!
# The outcome of an expression

An expression means what its tree means. The main statement is `Expression.evaluate_eq_tree`: for
every expression that nests no deeper than the limit there is exactly one well-bound tree with its
spelling, the outcome is what strict evaluation of that tree gives, and there is none exactly if a
node of the tree divides by zero. Of several such nodes the first is reported, in the order in which
levels of parentheses end.

The one exception concerns a whole expression that is a literal: its value is its text, even if it
spells a numeral.
-/

namespace Qualifier

namespace Tree

/-- The value of a tree as that of a whole expression. -/
def shown (tree : Tree Known) (value : Value) : Value :=
  (tree.literal?.map Value.string).getD value

/-- A queue is that of a literal only if its tree is a literal. -/
theorem conclude_entries (tree : Tree Known) :
    Expression.conclude tree.entries =
      match tree.literal? with
      | some text => return .string text
      | none => tree.entries.collapse := by
  cases tree with
  | leaf operand =>
    obtain ⟨value, literal?, position⟩ := operand
    cases literal? with
    | none => exact finish_entries (.leaf ⟨value, none, position⟩) 0
    | some text => rfl
  | group opening closing body => exact finish_entries (.group opening closing body) 0
  | node op span left right =>
    show Expression.conclude (node op span left right).entries =
      (node op span left right).entries.collapse
    obtain ⟨_, _, _, hsingle⟩ | hfinish :=
      Expression.eq_literal_or_conclude_eq (node op span left right).entries
    -- an operator has operands on both sides
    · rw [entries_node] at hsingle
      simp [entries] at hsingle
    · rw [hfinish, finish_entries]

end Tree

/-! ### Reports -/

/-- The report is that of strictly evaluating a tree in an expression with the given label. -/
structure Report.Follows {σ : Type} (report : Report σ) (tree : Tree Known) (label : String) :
    Prop where
  /-- The outcome is the value of the tree and the label after evaluating it. -/
  ok_iff (outcome : Outcome) : report.answer = .ok outcome ↔
    ∃ value, tree.evaluate label = some (value, outcome.label) ∧ outcome.value = tree.shown value
  /-- The label is the last that a node of the tree sets, or else the one to start with. -/
  label_eq (outcome : Outcome) (h : report.answer = .ok outcome) :
    outcome.label = tree.names.getLast?.getD label
  /-- There is no outcome exactly if a node divides by zero, and the first such node is reported. -/
  error_iff (error : Error) : report.answer = .error error ↔
    ∃ position, tree.faults.head? = some position ∧
      error = .failed (.divisionByZero (some position))

section

variable {σ : Type} {tree : Tree Known} {label : String}

theorem Report.follows_of_value {value : Value} {trail : List Event} {world : σ}
    (hvalue : tree.value? = some value) :
    Report.Follows ⟨.ok ⟨tree.shown value, tree.names.getLast?.getD label⟩, trail, world⟩ tree
      label where
  ok_iff outcome := by
    rw [Tree.evaluate_eq, hvalue]
    constructor
    · rintro ⟨⟩
      exact ⟨value, rfl, rfl⟩
    · rintro ⟨value', hlast, hshown⟩
      obtain ⟨rfl, hlabel⟩ := Prod.mk.inj (Option.some.inj hlast)
      rw [← hshown, hlabel]
  label_eq := by
    rintro outcome ⟨⟩
    rfl
  error_iff := by
    intro error
    have hfaults : tree.faults = [] := by
      rw [← Tree.value?_isSome_iff, hvalue]
      rfl
    simp [hfaults]

theorem Report.follows_of_faults {report : Report σ} {position : Nat} {more : List Nat}
    (hfaults : tree.faults = position :: more)
    (hanswer : report.answer = .error (.failed (.divisionByZero (some position)))) :
    report.Follows tree label where
  ok_iff outcome := by
    have hnone : tree.value? = none := by
      rw [← Option.not_isSome_iff_eq_none, Tree.value?_isSome_iff, hfaults]
      exact List.cons_ne_nil _ _
    simp [hanswer, Tree.evaluate_eq, hnone]
  label_eq outcome h := by
    rw [hanswer] at h
    cases h
  error_iff error := by
    rw [hanswer, hfaults]
    constructor
    · rintro ⟨⟩
      exact ⟨position, rfl, rfl⟩
    · rintro ⟨_, ⟨⟩, rfl⟩
      rfl

end

namespace Expression

variable {σ : Type} (env : Environment σ) {limit : Nat} {tree : Tree Written}
  (hbound : tree.WellBound) (hdepth : tree.depth ≤ limit) (label : String) (world : σ)

include hbound hdepth

/-- Without a division by zero, an expression has the value and the last label of its tree, and
leaves the world as looking its operands up does. -/
theorem evaluate_lexemes (hfaults : (tree.resolve env world).1.faults = []) :
    ∃ value trail, (tree.resolve env world).1.value? = some value ∧
      evaluate env limit tree.lexemes label world =
        { answer := .ok ⟨(tree.resolve env world).1.shown value,
            (tree.resolve env world).1.names.getLast?.getD label⟩
          trail
          world := (tree.resolve env world).2 } := by
  have hknown := hbound.resolve env world
  have hvalue := (Tree.value?_isSome_iff _).2 hfaults
  obtain ⟨value, hvalue'⟩ := Option.isSome_iff_exists.1 hvalue
  obtain ⟨hinner, hlevel⟩ := List.append_eq_nil_iff.1 hfaults
  obtain ⟨trail, hread⟩ := Tree.run_read env hbound ⟨⟨label, #[]⟩, world⟩ hinner
  have hnames := Tree.getLast?_names hknown hvalue label
  cases hliteral : (tree.resolve env world).1.literal? with
  | some text =>
    have hnone : (tree.resolve env world).1.rootName? = none := by
      cases h : (tree.resolve env world).1 with
      | leaf => rfl
      | group => rfl
      | node => simp [h, Tree.literal?] at hliteral
    refine ⟨value, trail.toList, hvalue', ?_⟩
    rw [evaluate, Tree.value_lexemes env hdepth, run_bind_of_ok hread, Tree.conclude_entries,
      hliteral, hnames, hnone, Tree.shown, hliteral]
    rfl
  | none =>
    obtain ⟨trail', hcollapse⟩ := Tree.collapse_entries hknown hinner hlevel
      ⟨(tree.resolve env world).1.innerNames.getLast?.getD label, trail⟩
    refine ⟨value, trail'.toList, hvalue', ?_⟩
    rw [evaluate, Tree.value_lexemes env hdepth, run_bind_of_ok hread, Tree.conclude_entries,
      hliteral, hnames, Tree.shown, hliteral, Reduction.run_within, hcollapse, hvalue']
    rfl

/-- With one, it fails at the first of them. -/
theorem evaluate_lexemes_of_faults {position : Nat} {more : List Nat}
    (hfaults : (tree.resolve env world).1.faults = position :: more) :
    (evaluate env limit tree.lexemes label world).answer =
      .error (.failed (.divisionByZero (some position))) := by
  have hknown := hbound.resolve env world
  rw [evaluate, Tree.value_lexemes env hdepth]
  rw [Tree.faults] at hfaults
  cases hinner : (tree.resolve env world).1.innerFaults with
  | cons first rest =>
    rw [hinner] at hfaults
    obtain ⟨rfl, -⟩ := List.cons.inj hfaults
    obtain ⟨progress, hread⟩ := Tree.run_read_of_innerFaults env hbound ⟨⟨label, #[]⟩, world⟩ hinner
    rw [run_bind_of_error hread]
    rfl
  | nil =>
    rw [hinner, List.nil_append] at hfaults
    obtain ⟨trail, hread⟩ := Tree.run_read env hbound ⟨⟨label, #[]⟩, world⟩ hinner
    obtain ⟨trail', hcollapse⟩ := Tree.collapse_of_levelFaults hknown hinner hfaults
      ⟨(tree.resolve env world).1.innerNames.getLast?.getD label, trail⟩
    have hliteral : (tree.resolve env world).1.literal? = none := by
      cases h : (tree.resolve env world).1 with
      | leaf => simp [h, Tree.levelFaults] at hfaults
      | group => rfl
      | node => rfl
    rw [run_bind_of_ok hread, Tree.conclude_entries, hliteral, Reduction.run_within, hcollapse]
    rfl

omit hbound hdepth

/-- An expression that nests no deeper than the limit means what its tree means: there is exactly
one well-bound tree with its spelling, and the report is that of evaluating this tree, its operands
looked up from left to right. -/
theorem evaluate_eq_tree {lexemes : List Lexeme} (h : IsExpression limit lexemes) :
    ∃ tree : Tree Written, tree.WellBound ∧ tree.lexemes = lexemes ∧
      (∀ other : Tree Written, other.WellBound → other.lexemes = lexemes → other = tree) ∧
      (evaluate env limit lexemes label world).Follows (tree.resolve env world).1 label := by
  obtain ⟨tree, hbound, rfl, hdepth⟩ := h.exists_tree
  have hunique (other : Tree Written) (hother : other.WellBound)
      (hlexemes : other.lexemes = tree.lexemes) : other = tree :=
    Tree.eq_of_lexemes_eq hother hbound hlexemes
  refine ⟨tree, hbound, rfl, hunique, ?_⟩
  cases hfaults : (tree.resolve env world).1.faults with
  | nil =>
    obtain ⟨value, trail, hvalue, hrun⟩ := evaluate_lexemes env hbound hdepth label world hfaults
    rw [hrun]
    exact Report.follows_of_value hvalue
  | cons position more =>
    exact Report.follows_of_faults hfaults
      (evaluate_lexemes_of_faults env hbound hdepth label world hfaults)

/-- In `(2) + 3 * 4 == 14 && b as x` each operator is of another tier, and each is the root of what
stands before the next. -/
theorem evaluate_eq_tree_of_five_tiers :
    let lexemes : List Lexeme := [.opening ⟨0, 1⟩, .operand "2" ⟨1, 2⟩, .closing ⟨2, 3⟩,
      .operator (.arithmetic .add) ⟨4, 5⟩, .operand "3" ⟨6, 7⟩,
      .operator (.arithmetic .multiply) ⟨8, 9⟩, .operand "4" ⟨10, 11⟩,
      .operator (.comparison .equal) ⟨12, 14⟩, .operand "14" ⟨15, 17⟩,
      .operator (.logic .and) ⟨18, 20⟩, .operand "b" ⟨21, 22⟩, .operator .naming ⟨23, 25⟩,
      .operand "x" ⟨26, 27⟩]
    let sum : Tree Written := .node (.arithmetic .add) ⟨4, 5⟩
      (.group ⟨0, 1⟩ ⟨2, 3⟩ (.leaf ⟨"2", ⟨1, 2⟩⟩))
      (.node (.arithmetic .multiply) ⟨8, 9⟩ (.leaf ⟨"3", ⟨6, 7⟩⟩) (.leaf ⟨"4", ⟨10, 11⟩⟩))
    let tree : Tree Written := .node .naming ⟨23, 25⟩
      (.node (.logic .and) ⟨18, 20⟩
        (.node (.comparison .equal) ⟨12, 14⟩ sum (.leaf ⟨"14", ⟨15, 17⟩⟩))
        (.leaf ⟨"b", ⟨21, 22⟩⟩))
      (.leaf ⟨"x", ⟨26, 27⟩⟩)
    let env : Environment Unit := ⟨fun _ ↦ none, fun _ ↦ none⟩
    IsExpression 1 lexemes ∧ tree.WellBound ∧ tree.lexemes = lexemes ∧
      (∀ other : Tree Written, other.WellBound → other.lexemes = lexemes → other = tree) ∧
      (evaluate env 1 lexemes "" ()).Follows (tree.resolve env ()).1 "" ∧
      (evaluate env 1 lexemes "" ()).answer = .ok ⟨.bool true, "x"⟩ := by
  intro lexemes sum tree env
  have hgroup : IsPrimary 1 (.opening ⟨0, 1⟩ :: ([.operand "2" ⟨1, 2⟩] ++ [.closing ⟨2, 3⟩])) :=
    .group _ _ (.one (.operand "2" ⟨1, 2⟩))
  have hexpression : IsExpression 1 lexemes :=
    .more (.arithmetic .add) ⟨4, 5⟩ hgroup <|
      .more (.arithmetic .multiply) ⟨8, 9⟩ (.operand "3" ⟨6, 7⟩) <|
      .more (.comparison .equal) ⟨12, 14⟩ (.operand "4" ⟨10, 11⟩) <|
      .more (.logic .and) ⟨18, 20⟩ (.operand "14" ⟨15, 17⟩) <|
      .more .naming ⟨23, 25⟩ (.operand "b" ⟨21, 22⟩) <| .one (.operand "x" ⟨26, 27⟩)
  have hbound : tree.WellBound := by decide
  have hlexemes : tree.lexemes = lexemes := rfl
  obtain ⟨tree', -, -, hunique, hfollows⟩ := evaluate_eq_tree env "" () hexpression
  obtain rfl : tree = tree' := hunique tree hbound hlexemes
  have hvalue : (tree.resolve env ()).1.evaluate "" = some (.bool true, "x") := by
    decide +kernel
  exact ⟨hexpression, hbound, hlexemes, hunique, hfollows,
    (hfollows.ok_iff ⟨.bool true, "x"⟩).2 ⟨.bool true, hvalue, rfl⟩⟩

end Expression

end Qualifier
