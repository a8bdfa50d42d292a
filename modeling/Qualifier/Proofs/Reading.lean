import Qualifier.Proofs.Frames
import Qualifier.Proofs.Level

/-!
# Reading the lexemes of a tree

What the pass over lexemes does with the spelling of a tree. `Tree.read` follows the tree: it looks
operands up, collapses groups, and gathers the queue of the outermost level. The pass does the same
(`Tree.foldlM_step_lexemes`), whatever levels are open around the tree, as long as the parentheses
are not too many.

Groups are collapsed as soon as they end, before any operator of the level around them, so the order
of reading is not that of evaluation. `Tree.run_read` and `Tree.run_read_of_innerFaults` say what it
comes to: the first division by zero is that of the level that ends first, and of the labels that
groups set the last one stays.
-/

namespace Qualifier

namespace Tree

variable {σ : Type} (env : Environment σ)

/-- Gathers the queue of the outermost level of a tree. -/
def read : Tree Written → Evaluation σ Queue
  | .leaf operand => do
    let value ← modifyGet ((Operand.ofText operand.text).lookUp env)
    return [.operand value (Operand.ofText operand.text).literal? operand.span.start]
  | .group opening _ body => do
    let queue ← body.read
    let value ← (Expression.finish queue opening.start).within
    return [.operand value none opening.start]
  | .node op span left right => do
    let before ← left.read
    let after ← right.read
    return before ++ .operator op span.start :: after

/-- The pass appends the queue of a tree to the innermost level. -/
theorem foldlM_step_lexemes (limit : Nat) (tree : Tree Written) (stack : Stack)
    (hdepth : tree.depth + stack.frames.length ≤ limit) :
    tree.lexemes.foldlM (Stack.step env limit) stack =
      (do
        let queue ← tree.read env
        return stack.append queue) := by
  induction tree generalizing stack with
  | leaf operand =>
    simp only [lexemes, List.foldlM_cons, List.foldlM_nil, Stack.step, read, bind_assoc, pure_bind]
  | group opening closing body ih =>
    simp only [depth] at hdepth
    have hlevel : stack.step env limit (.opening opening) =
        return ⟨stack.base, ⟨opening.start, []⟩ :: stack.frames⟩ := by
      rw [Stack.step, if_neg (by omega)]
    have hroom : body.depth + (⟨opening.start, []⟩ :: stack.frames).length ≤ limit := by
      rw [List.length_cons]
      omega
    rw [lexemes, List.foldlM_cons, hlevel, pure_bind, List.foldlM_append, ih _ hroom, read]
    simp only [List.foldlM_cons, List.foldlM_nil, bind_assoc, pure_bind, Stack.append,
      List.nil_append, Stack.step]
  | node op span left right ihl ihr =>
    simp only [depth] at hdepth
    have hleft : left.depth + stack.frames.length ≤ limit := by omega
    rw [lexemes, List.foldlM_append, ihl _ hleft, read]
    simp only [bind_assoc, pure_bind]
    congr 1
    funext before
    -- what has been gathered of the left side opens no level
    have hright : right.depth +
        ((stack.append before).append [.operator op span.start]).frames.length ≤ limit := by
      rw [Stack.length_frames_append, Stack.length_frames_append]
      omega
    rw [List.foldlM_cons, Stack.step, pure_bind, ihr _ hright]
    simp only [Stack.append_append, List.append_assoc, List.cons_append, List.nil_append]

/-- A whole expression has the value of the queue of its tree. -/
theorem value_lexemes {limit : Nat} {tree : Tree Written} (hdepth : tree.depth ≤ limit) :
    Expression.value env limit tree.lexemes =
      (do
        let queue ← tree.read env
        (Expression.conclude queue).within) := by
  rw [Expression.value_eq_pass, Expression.pass, Stack.resume,
    foldlM_step_lexemes env limit tree .empty hdepth]
  simp only [bind_assoc, pure_bind, Stack.append, Stack.empty, List.nil_append, Stack.conclude]

/-! ### Running it -/

/-- The labels set within parentheses. -/
def innerNames : Tree Known → List String
  | .leaf _ => []
  | .group _ _ body => body.names
  | .node _ _ left right => left.innerNames ++ right.innerNames

theorem names_of_rank_le {tree : Tree Known} (hbound : tree.WellBound) (h : tree.rank ≤ 4) :
    tree.names = tree.innerNames := by
  induction tree with
  | leaf => rfl
  | group => rfl
  | node op span left right ihl ihr =>
    obtain ⟨hl, hr, hleft, hright⟩ := hbound
    simp only [rank] at h
    have hop : op ≠ .naming := by
      rintro rfl
      exact absurd h (by decide)
    have hlower : left.rank ≤ 4 := by omega
    have hlower' : right.rank ≤ 4 := by omega
    rw [names, if_neg hop, ihl hl hlower, ihr hr hlower', List.append_nil, innerNames]

/-- The last label of a tree with a value is that of its root, or else the last within
parentheses. -/
theorem getLast?_names {tree : Tree Known} (hbound : tree.WellBound)
    (hvalue : tree.value?.isSome) (label : String) :
    tree.names.getLast?.getD label =
      tree.rootName?.getD (tree.innerNames.getLast?.getD label) := by
  by_cases hrank : tree.rank ≤ 4
  · rw [names_of_rank_le hbound hrank, rootName?_of_rank_le hrank]
    rfl
  · match tree, hbound with
    | .leaf _, _ => simp [rank] at hrank
    | .group .., _ => simp [rank] at hrank
    | .node op span left right, hbound =>
      obtain rfl : op = .naming :=
        Operator.eq_naming_of_looseness (by simp only [rank] at hrank; omega)
      have hright : right.value?.isSome := by
        rw [value?_isSome_iff] at hvalue ⊢
        simp only [faults, innerFaults, levelFaults, List.append_eq_nil_iff] at hvalue ⊢
        exact ⟨hvalue.1.2, hvalue.2.2⟩
      obtain ⟨y, hy⟩ := Option.isSome_iff_exists.1 hright
      simp [names, rootName?, name?_eq_some hy]

/-- A queue that is well formed is worth what it collapses to. -/
theorem finish_entries (tree : Tree Known) (position : Nat) :
    Expression.finish tree.entries position = tree.entries.collapse :=
  Expression.finish_of_check (check_entries tree position)

/-- If nothing divides by zero within parentheses, reading a tree gathers its queue. -/
theorem run_read {tree : Tree Written} (hbound : tree.WellBound) (progress : Progress σ)
    (hinner : (tree.resolve env progress.world).1.innerFaults = []) :
    ∃ trail, (tree.read env).run progress =
      (.ok (tree.resolve env progress.world).1.entries,
        { label := (tree.resolve env progress.world).1.innerNames.getLast?.getD progress.label
          trail
          world := (tree.resolve env progress.world).2 }) := by
  induction tree generalizing progress with
  | leaf operand =>
    obtain ⟨trail, hlook⟩ := (Operand.ofText operand.text).lookUp_eq env progress
    refine ⟨trail, ?_⟩
    rw [read, run_bind_of_ok (run_modifyGet _ _), hlook]
    rfl
  | group opening closing body ih =>
    have hvalue := (value?_isSome_iff (body.resolve env progress.world).1).2 hinner
    obtain ⟨hinner, hlevel⟩ := List.append_eq_nil_iff.1 hinner
    have hbody := WellBound.resolve env (show body.WellBound from hbound) progress.world
    obtain ⟨trail, hrun⟩ := ih hbound progress hinner
    obtain ⟨trail', hcollapse⟩ := collapse_entries hbody hinner hlevel
      ⟨(body.resolve env progress.world).1.innerNames.getLast?.getD progress.label, trail⟩
    -- all labels of the body are those of the level around it
    rw [← getLast?_names hbody hvalue] at hcollapse
    refine ⟨trail', ?_⟩
    rw [read, run_bind_of_ok hrun, finish_entries,
      run_bind_of_ok (by rw [Reduction.run_within, hcollapse])]
    rfl
  | node op span left right ihl ihr =>
    obtain ⟨hl, hr, -, -⟩ := hbound
    obtain ⟨hinnerl, hinnerr⟩ := List.append_eq_nil_iff.1 hinner
    obtain ⟨trail, hleft⟩ := ihl hl progress hinnerl
    obtain ⟨trail', hright⟩ := ihr hr ⟨⟨_, trail⟩, (left.resolve env progress.world).2⟩ hinnerr
    refine ⟨trail', ?_⟩
    rw [read, run_bind_of_ok hleft, run_bind_of_ok hright, run_pure]
    simp only [resolve, entries_node, innerNames, List.getLast?_append, Option.getD_or]

/-- Otherwise it fails at the first division by zero of the level that ends first. -/
theorem run_read_of_innerFaults {tree : Tree Written} (hbound : tree.WellBound)
    (progress : Progress σ) {position : Nat} {more : List Nat}
    (hinner : (tree.resolve env progress.world).1.innerFaults = position :: more) :
    ∃ progress', (tree.read env).run progress =
      (.error (.failed (.divisionByZero (some position))), progress') := by
  induction tree generalizing progress more with
  | leaf => simp [resolve, innerFaults] at hinner
  | group opening closing body ih =>
    have hbody := WellBound.resolve env (show body.WellBound from hbound) progress.world
    change (body.resolve env progress.world).1.innerFaults ++
      (body.resolve env progress.world).1.levelFaults = position :: more at hinner
    cases hfaults : (body.resolve env progress.world).1.innerFaults with
    | nil =>
      rw [hfaults, List.nil_append] at hinner
      obtain ⟨trail, hrun⟩ := run_read env (show body.WellBound from hbound) progress hfaults
      obtain ⟨trail', hcollapse⟩ := collapse_of_levelFaults hbody hfaults hinner
        ⟨(body.resolve env progress.world).1.innerNames.getLast?.getD progress.label, trail⟩
      rw [read, run_bind_of_ok hrun, finish_entries]
      exact ⟨_, run_bind_of_error (by rw [Reduction.run_within, hcollapse])⟩
    | cons first rest =>
      rw [hfaults] at hinner
      obtain ⟨rfl, -⟩ := List.cons.inj hinner
      obtain ⟨progress', hrun⟩ := ih hbound progress hfaults
      exact ⟨progress', run_bind_of_error hrun⟩
  | node op span left right ihl ihr =>
    obtain ⟨hl, hr, -, -⟩ := hbound
    change (left.resolve env progress.world).1.innerFaults ++
      (right.resolve env (left.resolve env progress.world).2).1.innerFaults = _ at hinner
    -- the right side is read only if no level ends badly on the left
    cases hfaults : (left.resolve env progress.world).1.innerFaults with
    | nil =>
      rw [hfaults, List.nil_append] at hinner
      obtain ⟨trail, hleft⟩ := run_read env hl progress hfaults
      obtain ⟨progress', hright⟩ := ihr hr ⟨⟨_, trail⟩, (left.resolve env progress.world).2⟩ hinner
      rw [read, run_bind_of_ok hleft]
      exact ⟨progress', run_bind_of_error hright⟩
    | cons first rest =>
      rw [hfaults] at hinner
      obtain ⟨rfl, -⟩ := List.cons.inj hinner
      obtain ⟨progress', hrun⟩ := ihl hl progress hfaults
      exact ⟨progress', run_bind_of_error hrun⟩

end Tree

end Qualifier
