import Qualifier.Proofs.Precondition

/-!
# Collapsing is folding within folding

`Queue.collapse` applies operators tier by tier over the whole queue, from the tightest tier, so the
operators of different parts take turns. The same value comes about part by part
(`Queue.nestedFold`): cut the queue at the operators of the loosest tier, compute each part in the
same way with the tighter tiers, and apply the operators between the parts from left to right.

The main statement is `Queue.collapse_eq_nestedFold`. It has the well-bound tree of the queue stand
between the two: at the root of a tree the last cut is made (`Queue.fold_append`), and below it only
tighter operators are left (`Tree.swept_entries`), so that folding the queue of a tree follows the
tree (`Tree.fold_entries`).
-/

namespace Qualifier

namespace Queue

/-! ### Parts -/

/-- An operator of a queue and the part of the queue behind it. -/
structure Part where
  /-- The operator. -/
  op : Operator
  /-- Where the operator stands. -/
  position : Nat
  /-- The part. -/
  queue : Queue

/-- A queue, cut at some of its operators. -/
structure Cut where
  /-- The part before the first of the operators. -/
  first : Queue
  /-- The other parts. -/
  others : List Part

/-- A queue, cut at the operators of a tier. -/
def cut (tier : Tier) : Queue → Cut
  | [] => ⟨[], []⟩
  | entry :: rest =>
    let ⟨first, others⟩ := cut tier rest
    match entry with
    | .operator op position =>
      if op ∈ tier.operators then ⟨[], ⟨op, position, first⟩ :: others⟩
      else ⟨entry :: first, others⟩
    | .operand .. => ⟨entry :: first, others⟩

/-- The spelling of a part that is one literal. -/
def spelling? : Queue → Option String
  | [.operand _ literal _] => literal
  | _ => none

/-- The value of a queue whose operators are of the tiers given, the loosest first, and the label
that it leaves: the queue is cut at the operators of the loosest tier, and these are applied to the
values of the parts from left to right. -/
def fold : List Tier → Queue → String → Except Error (Value × String)
  | [], queue, label => ((settle queue).mapError .malformed).map (·, label)
  | tier :: tighter, queue, label => do
    let parts := queue.cut tier
    let start ← fold tighter parts.first label
    parts.others.foldlM (fun (left, label) part ↦ do
      let (right, label) ← fold tighter part.queue label
      let right := named part.op right part.queue.spelling?
      (part.op.apply left right (some part.position) label).mapError .failed) start

/-- The value of a queue, part by part: it is cut at `as`, each part at `&&` and `||`, each of these
at the operators that compare, each at `+` and `-`, and each at `*` and `/`. -/
def nestedFold : Queue → String → Except Error (Value × String) :=
  fold [.naming, .logical, .comparison, .additive, .multiplicative]

section

variable {tier : Tier} {queue : Queue} (tighter : List Tier) (label : String)

theorem cut_of_swept (h : queue.Swept tier) : queue.cut tier = ⟨queue, []⟩ := by
  induction queue with
  | nil => rfl
  | cons entry rest ih =>
    rw [cut, ih h.tail]
    cases entry with
    | operand => rfl
    | operator op position =>
      exact if_neg fun hop ↦
        h _ List.mem_cons_self (congrArg some (Tier.mem_operators_iff.1 hop))

/-- The last operator of the tier makes the last cut. -/
theorem cut_append (left : Queue) {right : Queue} (h : right.Swept tier) {op : Operator}
    (hop : op.tier = tier) (position : Nat) :
    (left ++ .operator op position :: right).cut tier =
      ⟨(left.cut tier).first, (left.cut tier).others ++ [⟨op, position, right⟩]⟩ := by
  induction left with
  | nil =>
    show cut tier (.operator op position :: right) = ⟨[], [⟨op, position, right⟩]⟩
    rw [cut, cut_of_swept h]
    exact if_pos (Tier.mem_operators_iff.2 hop)
  | cons entry rest ih =>
    rw [List.cons_append, cut, ih, cut]
    cases entry with
    | operand => rfl
    | operator op' position' =>
      by_cases hop' : op' ∈ tier.operators
      · simp only [if_pos hop', List.cons_append]
      · simp only [if_neg hop']

/-- A cut loses nothing. -/
theorem join_cut (tier : Tier) (queue : Queue) :
    (queue.cut tier).first ++ (queue.cut tier).others.flatMap
      (fun part ↦ .operator part.op part.position :: part.queue) = queue := by
  induction queue with
  | nil => rfl
  | cons entry rest ih =>
    rw [cut]
    cases entry with
    | operand => exact congrArg (List.cons _) ih
    | operator op position =>
      by_cases hop : op ∈ tier.operators
      · simp only [if_pos hop]
        exact congrArg (List.cons _) ih
      · simp only [if_neg hop]
        exact congrArg (List.cons _) ih

/-- No part has an operator of the tier, and only such operators are cut at. -/
theorem swept_cut (tier : Tier) (queue : Queue) :
    (queue.cut tier).first.Swept tier ∧
      ∀ part ∈ (queue.cut tier).others, part.op ∈ tier.operators ∧ part.queue.Swept tier := by
  induction queue with
  | nil => exact ⟨List.forall_mem_nil _, List.forall_mem_nil _⟩
  | cons entry rest ih =>
    obtain ⟨hfirst, hothers⟩ := ih
    rw [cut]
    cases entry with
    | operand => exact ⟨hfirst.operand, hothers⟩
    | operator op position =>
      by_cases hop : op ∈ tier.operators
      · simp only [if_pos hop]
        exact ⟨List.forall_mem_nil _, List.forall_mem_cons.2 ⟨⟨hop, hfirst⟩, hothers⟩⟩
      · simp only [if_neg hop]
        refine ⟨hfirst.cons fun h ↦ hop ?_, hothers⟩
        exact Tier.mem_operators_iff.2 (Option.some.inj h)

/-- A queue without operators of the tier is one part. -/
theorem fold_of_swept (h : queue.Swept tier) :
    fold (tier :: tighter) queue label = fold tighter queue label := by
  rw [fold, cut_of_swept h]
  exact bind_pure _

/-- The last operator of the tier is applied last. -/
theorem fold_append (left : Queue) {right : Queue} (h : right.Swept tier) {op : Operator}
    (hop : op.tier = tier) (position : Nat) :
    fold (tier :: tighter) (left ++ .operator op position :: right) label = (do
      let (x, label) ← fold (tier :: tighter) left label
      let (y, label) ← fold tighter right label
      (op.apply x (named op y right.spelling?) (some position) label).mapError .failed) := by
  rw [fold, cut_append left h hop, fold]
  simp only [List.foldlM_append, bind_assoc, List.foldlM_cons, List.foldlM_nil, bind_pure]

end

end Queue

/-! ### The queue of a tree -/

namespace Tree

variable {tree : Tree Known}

/-- A queue has no operator as loose as the rank of its tree. -/
theorem swept_entries {tier : Tier} (hbound : tree.WellBound) (h : tree.rank ≤ tier.index) :
    tree.entries.Swept tier := by
  refine List.forall_mem_cons.2 ⟨nofun, fun entry hmem ↦ ?_⟩
  obtain ⟨link, hlink, hentry⟩ := List.mem_flatMap.1 hmem
  obtain rfl | rfl : entry = .operator link.op link.span.start ∨ entry = link.operand.entry := by
    simpa using hentry
  · intro htier
    have hlt := index_lt_rank_of_mem_level hbound hlink
    rw [Operator.looseness_eq_iff.2 (Option.some.inj htier)] at hlt
    omega
  · nofun

theorem spelling?_entries (tree : Tree Known) : tree.entries.spelling? = tree.literal? := by
  cases tree with
  | leaf => rfl
  | group => rfl
  | node op span left right =>
    rw [entries, level]
    cases left.level.links <;> rfl

theorem outcome_of_levelFaults {place : Nat} {more : List Nat}
    (h : tree.levelFaults = place :: more) (label : String) :
    tree.outcome label = .error (.failed (.divisionByZero (some place))) := by
  rw [outcome, h]

theorem outcome_of_value? {value : Value} (h : tree.value? = some value) (label : String) :
    tree.outcome label = .ok (value, tree.rootName?.getD label) := by
  have hfaults := (value?_isSome_iff tree).1 (Option.isSome_of_eq_some h)
  rw [outcome, (List.append_eq_nil_iff.1 hfaults).2, h, Option.getD_some]

/-- A level without a division by zero has a value. -/
theorem exists_value? (hinner : tree.innerFaults = []) (hlevel : tree.levelFaults = []) :
    ∃ value, tree.value? = some value :=
  Option.isSome_iff_exists.1 <| (value?_isSome_iff tree).2 <| by rw [faults, hinner, hlevel]; rfl

/-- Only the root of a tree can set its label. -/
theorem rootName?_node {op : Operator} (span : Span) {left right : Tree Known} {value : Value}
    (hleft : left.rank ≤ op.looseness + 1) (hright : right.value? = some value)
    (hrank : right.rank ≤ op.looseness) (label : String) :
    (node op span left right).rootName?.getD label =
      if op = .naming then right.literal?.getD value.asText
      else right.rootName?.getD (left.rootName?.getD label) := by
  by_cases hop : op = .naming
  · subst hop
    rw [if_pos rfl, rootName?, name?_eq_some hright, Option.getD_some]
  · have hroot : (node op span left right).rootName? = none := by
      cases op with
      | naming => exact absurd rfl hop
      | _ => rfl
    have hindex : op.looseness + 1 ≤ 4 := by
      have hlt : op.looseness < 4 := Nat.not_le.1 fun h ↦ hop (Operator.eq_naming_of_looseness h)
      omega
    rw [if_neg hop, hroot, rootName?_of_rank_le (by omega), rootName?_of_rank_le (by omega)]
    rfl

/-- What a node amounts to comes from its sides. -/
theorem outcome_node {op : Operator} {span : Span} {left right : Tree Known}
    (hbound : (node op span left right).WellBound)
    (hinner : (node op span left right).innerFaults = []) (label : String) :
    (node op span left right).outcome label = (do
      let (x, label) ← left.outcome label
      let (y, label) ← right.outcome label
      (op.apply x (Queue.named op y right.literal?) (some span.start) label).mapError .failed) := by
  obtain ⟨-, -, hleftRank, hrightRank⟩ := hbound
  obtain ⟨hinnerLeft, hinnerRight⟩ := List.append_eq_nil_iff.1 hinner
  cases hleft : left.levelFaults with
  | cons place more =>
    have hnode : (node op span left right).levelFaults =
        place :: (more ++ fault op span right ++ right.levelFaults) := by
      rw [levelFaults, hleft]
      rfl
    rw [outcome_of_levelFaults hnode, outcome_of_levelFaults hleft]
    rfl
  | nil =>
    obtain ⟨x, hx⟩ := exists_value? hinnerLeft hleft
    rw [outcome_of_value? hx]
    show _ = (right.outcome (left.rootName?.getD label) >>= fun (y, label) ↦
      (op.apply x (Queue.named op y right.literal?) (some span.start) label).mapError .failed)
    cases hright : right.levelFaults with
    | cons place more =>
      -- the right side has no value, by which the operator could divide
      have hfault : fault op span right = [] := by
        refine Decidable.byContradiction fun hfault ↦ ?_
        obtain ⟨-, y, hy, -⟩ := fault_ne_nil hfault
        have hnil := (value?_isSome_iff right).1 (Option.isSome_of_eq_some hy)
        rw [faults, hright] at hnil
        exact List.cons_ne_nil _ _ (List.append_eq_nil_iff.1 hnil).2
      have hnode : (node op span left right).levelFaults = place :: more := by
        rw [levelFaults, hleft, hfault, hright]
        rfl
      rw [outcome_of_levelFaults hnode, outcome_of_levelFaults hright]
      rfl
    | nil =>
      obtain ⟨y, hy⟩ := exists_value? hinnerRight hright
      rw [outcome_of_value? hy]
      show _ = Except.mapError Error.failed (op.apply x (Queue.named op y right.literal?)
        (some span.start) (right.rootName?.getD (left.rootName?.getD label)))
      cases hvalue : op.result? x y with
      | none =>
        have hzero := Operator.result?_eq_none_iff.1 hvalue
        have hop : op ≠ .naming := by simp [hzero.1]
        have hnode : (node op span left right).levelFaults = [span.start] := by
          simp [levelFaults, hleft, hright, fault, hy, hzero]
        rw [outcome_of_levelFaults hnode, Queue.named_of_ne _ hop,
          Operator.apply_of_dividesByZero _ _ hzero]
        rfl
      | some value =>
        have hnode : (node op span left right).value? = some value := by
          simp [value?, hx, hy, hvalue]
        rw [outcome_of_value? hnode, Queue.apply_named_of_result? _ _ _ hvalue,
          rootName?_node span hleftRank hy hrightRank]
        rfl

/-- To fold the queue of a tree with the tiers up to its rank is to evaluate the tree. -/
theorem fold_entries {tiers : List Tier} {n : Nat}
    (htiers : tiers.map Tier.index = (List.range n).reverse) (hbound : tree.WellBound)
    (hinner : tree.innerFaults = []) (hrank : tree.rank ≤ n) (label : String) :
    Queue.fold tiers tree.entries label = tree.outcome label := by
  induction tiers generalizing n tree label with
  | nil =>
    have hn : n = 0 := by simpa using (congrArg List.length htiers).symm
    cases tree with
    | leaf => rfl
    | group => rfl
    | node =>
      simp only [rank] at hrank
      omega
  | cons tier tighter ih =>
    obtain ⟨m, rfl⟩ : ∃ m, n = m + 1 :=
      ⟨tighter.length, by simpa using (congrArg List.length htiers).symm⟩
    rw [List.range_succ, List.reverse_append, List.map_cons] at htiers
    obtain ⟨rfl, htighter⟩ := List.cons.inj htiers
    have hpart {tree : Tree Known} (hbound : tree.WellBound) (hinner : tree.innerFaults = [])
        (hrank : tree.rank ≤ tier.index) (label : String) :
        Queue.fold (tier :: tighter) tree.entries label = tree.outcome label := by
      rw [Queue.fold_of_swept _ _ (swept_entries hbound hrank)]
      exact ih htighter hbound hinner hrank label
    induction tree generalizing label with
    | leaf => exact hpart hbound hinner (Nat.zero_le _) label
    | group => exact hpart hbound hinner (Nat.zero_le _) label
    | node op span left right ihl _ =>
      by_cases htier : op.tier = tier
      · have hsides := hbound
        obtain ⟨hleft, hright, hleftRank, hrightRank⟩ := hsides
        rw [Operator.looseness_eq_iff.2 htier] at hleftRank hrightRank
        obtain ⟨hinnerLeft, hinnerRight⟩ := List.append_eq_nil_iff.1 hinner
        have hbehind (label : String) :
            Queue.fold tighter right.entries label = right.outcome label :=
          ih htighter hright hinnerRight hrightRank label
        rw [entries_node, Queue.fold_append _ _ _ (swept_entries hright hrightRank) htier,
          ihl hleft hinnerLeft label hleftRank, spelling?_entries, outcome_node hbound hinner]
        simp only [hbehind]
      · have hindex : op.looseness ≠ tier.index := fun h ↦ htier (Operator.looseness_eq_iff.1 h)
        simp only [rank] at hrank
        exact hpart hbound hinner (by simp only [rank]; omega) label

/-- So it is to collapse the queue. -/
theorem collapse_entries_eq (hbound : tree.WellBound) (hinner : tree.innerFaults = [])
    (ledger : Ledger) :
    (tree.entries.collapse.run ledger).1.map
        (fun value ↦ (value, (tree.entries.collapse.run ledger).2.label)) =
      tree.outcome ledger.label := by
  obtain ⟨trail, hrun⟩ := run_collapse_entries hbound hinner ledger
  rw [hrun]
  cases tree.outcome ledger.label <;> rfl

end Tree

namespace Queue

/-- A well-formed queue collapses to the value that its parts have, and leaves the label that they
leave, or fails as they fail. So it does in place, where operators are applied one by one, always
the leftmost of the tightest tier. -/
theorem collapse_eq_nestedFold {queue : Queue} {position : Nat}
    (h : queue.check position = .ok ()) (ledger : Ledger) :
    (queue.collapse.run ledger).1.map
          (fun value ↦ (value, (queue.collapse.run ledger).2.label)) =
        queue.nestedFold ledger.label ∧
      (queue.collapseInPlace.run ledger).1.map
          (fun value ↦ (value, (queue.collapseInPlace.run ledger).2.label)) =
        (queue.nestedFold ledger.label).mapError Halt.fault := by
  obtain ⟨tree, hbound, hinner, rfl⟩ := exists_tree h
  have hrank : tree.rank ≤ 5 := by
    cases tree with
    | leaf => exact Nat.zero_le _
    | group => exact Nat.zero_le _
    | node op => exact op.looseness_lt
  have hfold : (tree.entries.collapse.run ledger).1.map
      (fun value ↦ (value, (tree.entries.collapse.run ledger).2.label)) =
        tree.entries.nestedFold ledger.label := by
    rw [Tree.collapse_entries_eq hbound hinner, nestedFold]
    exact (Tree.fold_entries rfl hbound hinner hrank ledger.label).symm
  refine ⟨hfold, ?_⟩
  rw [← hfold, collapseInPlace_eq, Reduction.run_indexed]
  cases (tree.entries.collapse.run ledger).1 <;> rfl

/-- In `2 + 3 * 4 == 14 as a && b as D` the first part is `true`, as every tier binds in its turn,
and the label is set to the text of `a && b` and then to `D`. From left to right alone, the first
part would be `false`. -/
theorem collapse_eq_nestedFold_of_five_tiers :
    let queue : Queue := [.operand (.string "2") none 0, .operator (.arithmetic .add) 2,
      .operand (.string "3") none 4, .operator (.arithmetic .multiply) 6,
      .operand (.string "4") none 8, .operator (.comparison .equal) 10,
      .operand (.string "14") none 13, .operator .naming 16, .operand (.string "a") none 19,
      .operator (.logic .and) 21, .operand (.string "b") none 24, .operator .naming 26,
      .operand (.string "d") (some "D") 29]
    let ledger : Ledger := ⟨"start", #[]⟩
    queue.check 0 = .ok () ∧
      (queue.collapse.run ledger).1.map
          (fun value ↦ (value, (queue.collapse.run ledger).2.label)) =
        queue.nestedFold ledger.label ∧
      (queue.nestedFold ledger.label).toOption = some (.bool true, "D") := by
  intro queue ledger
  have hcheck : queue.check 0 = .ok () := rfl
  exact ⟨hcheck, (collapse_eq_nestedFold hcheck ledger).1, by decide +kernel⟩

end Queue

end Qualifier
