import Qualifier.Proofs.Meaning
import Qualifier.Proofs.Run
import Qualifier.Queue

/-!
# Collapsing the queue of a tree

The queue of a level of parentheses, collapsed tier by tier, has the value of the well-bound tree of
that level. The queue of a chain of trees stands between the two: each sweep over the queue does to
the values what `Tree.sweep` does to the trees (`sweep_linkEntries`), and `Tree.join_sweep` keeps
track of the tree. Groups count as operands that are known, so all divisions by zero that can still
come up are those of the outermost level.

Divisions belong to the first tier that is swept and `as` to the last. So if one divides by zero,
the leftmost is reported and the label has not been touched (`collapse_of_levelFaults`), and
otherwise the label is set by the root if that is an `as` (`collapse_entries`).
-/

namespace Qualifier

/-! ### One operator -/

namespace Queue

variable {op : Operator} {left right value : Value} (literal : Option String) (position : Nat)
  (ledger : Ledger)

/-- The right side that an operator is applied to: for `as`, a literal counts with its spelling. -/
def named (op : Operator) (right : Value) (literal : Option String) : Value :=
  match op, literal with
  | .naming, some text => .string text
  | _, _ => right

theorem named_of_ne (h : op ≠ .naming) : named op right literal = right := by
  cases op with
  | naming => exact absurd rfl h
  | _ => rfl

/-- The ledger in which the label that an operator is about to set is noted. -/
def announce (op : Operator) (right : Value) (ledger : Ledger) : Ledger :=
  if op = .naming then ledger.note (.relabelled ledger.label right.asText) else ledger

/-- An operator announces the label that it sets, and notes itself if it does not fail. -/
theorem run_combine (left right : Value) :
    (combine op left right literal position).run ledger =
      match op.apply left (named op right literal) (some position) ledger.label with
      | .error e => (.error (.failed e), announce op (named op right literal) ledger)
      | .ok (result, label) =>
        (.ok result, { announce op (named op right literal) ledger with label }.note
          (.reduced op left (named op right literal) result)) := by
  rcases op with op | op | op | _
  case arithmetic =>
    simp only [combine, named, Operator.apply_arithmetic]
    cases op.apply left right (some position) <;> rfl
  case comparison => rfl
  case logic => rfl
  case naming => cases literal <;> rfl

/-- A division by zero fails at the operator and leaves the ledger alone. -/
theorem combine_of_dividesByZero (h : op.DividesByZero right) :
    (combine op left right literal position).run ledger =
      (.error (.failed (.divisionByZero (some position))), ledger) := by
  have hop : op ≠ .naming := by simp [h.1]
  rw [run_combine, named_of_ne _ hop, Operator.apply_of_dividesByZero _ _ h, announce, if_neg hop]

/-- Any other operator has its value, and only `as` sets the label. -/
theorem apply_named_of_result? (place : Option Nat) (label : String)
    (h : op.result? left right = some value) :
    op.apply left (named op right literal) place label =
      .ok (value, if op = .naming then literal.getD right.asText else label) := by
  by_cases hop : op = .naming
  · subst hop
    cases h
    cases literal <;> rfl
  · rw [named_of_ne _ hop, Operator.apply_of_result? _ _ h, if_neg hop, if_neg hop]

theorem combine_of_result? (h : op.result? left right = some value) :
    ∃ trail, (combine op left right literal position).run ledger =
      (.ok value,
        ⟨if op = .naming then literal.getD right.asText else ledger.label, trail⟩) := by
  rw [run_combine, apply_named_of_result? _ _ _ h]
  exact ⟨_, rfl⟩

/-! ### Faults of shape -/

theorem run_orMalformed_eq_ok {α : Type} {x : Except SyntaxError α} {a : α}
    {ledger ledger' : Ledger} (h : (orMalformed x).run ledger = (.ok a, ledger')) :
    x = .ok a ∧ ledger' = ledger := by
  cases x with
  | error => cases h
  | ok =>
    cases h
    exact ⟨rfl, rfl⟩

/-- A queue has a value if the sweeps leave one operand. -/
theorem sweeps_of_collapse {queue : Queue} {ledger ledger' : Ledger}
    (h : queue.collapse.run ledger = (.ok value, ledger')) :
    ∃ rest, (Tier.all.foldlM (fun queue tier ↦ sweep tier [] queue) queue).run ledger =
      (.ok rest, ledger') ∧ settle rest = .ok value := by
  obtain ⟨rest, between, hsweeps, hsettle⟩ := run_bind_eq_ok h
  obtain ⟨hvalue, rfl⟩ := run_orMalformed_eq_ok hsettle
  exact ⟨rest, hsweeps, hvalue⟩

/-! ### One step of a sweep -/

variable {tier : Tier}

theorem sweep_operand (done rest : Queue) :
    sweep tier done (.operand value literal position :: rest) =
      sweep tier (.operand value literal position :: done) rest := by
  simp only [sweep]

theorem sweep_operator_of_ne (done : Queue) (next : Entry) (rest : Queue) (h : op.tier ≠ tier) :
    sweep tier done (.operator op position :: next :: rest) =
      sweep tier (.operator op position :: done) (next :: rest) := by
  cases done with
  | nil => simp only [sweep, if_neg h]
  | cons entry done => cases entry <;> cases next <;> simp only [sweep, if_neg h]

theorem sweep_operator_of_eq (spelling : Option String) (start place : Nat) (done rest : Queue)
    (h : op.tier = tier) :
    sweep tier (.operand left spelling start :: done)
        (.operator op position :: .operand right literal place :: rest) =
      (do
        let result ← combine op left right literal position
        sweep tier (.operand result none start :: done) rest) := by
  simp only [sweep, if_pos h]

end Queue

/-! ### The queue of a chain -/

namespace Tree

/-- Where a tree starts. -/
def position : Tree Known → Nat
  | .leaf operand => operand.position
  | .group opening _ _ => opening.start
  | .node _ _ left _ => left.position

/-- A tree as an operand of a queue. -/
def entry (tree : Tree Known) : Entry :=
  .operand (tree.value?.getD .null) tree.literal? tree.position

/-- The entries of what follows the first operand of a chain. -/
def linkEntries (links : List (Link Known)) : Queue :=
  links.flatMap fun link ↦ [.operator link.op link.span.start, link.operand.entry]

/-- The queue of the outermost level of a tree. -/
def entries (tree : Tree Known) : Queue :=
  tree.level.first.entry :: linkEntries tree.level.links

/-- The label that the root of a tree sets. -/
def rootName? : Tree Known → Option String
  | .node .naming _ _ right => right.name?
  | _ => none

/-- The divisions by zero of a chain. -/
def linkFaults (links : List (Link Known)) : List Nat :=
  links.flatMap fun link ↦ fault link.op link.span link.operand

theorem fault_eq_nil {op : Operator} {span : Span} {right : Tree Known} {value : Value}
    (hright : right.value? = some value) (h : fault op span right = []) :
    ¬op.DividesByZero value := by
  intro hzero
  simp [fault, hright, hzero] at h

theorem fault_ne_nil {op : Operator} {span : Span} {right : Tree Known}
    (h : fault op span right ≠ []) :
    fault op span right = [span.start] ∧
      ∃ value, right.value? = some value ∧ op.DividesByZero value := by
  simp only [fault] at h ⊢
  split at h
  · next hany =>
    rw [if_pos hany]
    cases hright : right.value? with
    | none => simp [hright] at hany
    | some value => exact ⟨rfl, value, rfl, by simpa [hright] using hany⟩
  · exact absurd rfl h

end Tree

namespace Chain

/-- All that is left to go wrong in a chain is a division by zero. -/
structure IsKnown (chain : Chain Known) : Prop where
  /-- The first operand has a value. -/
  first : chain.first.value?.isSome
  /-- The other operands have values. -/
  operand : ∀ link ∈ chain.links, link.operand.value?.isSome

theorem IsKnown.tail {first : Tree Known} {link : Link Known} {rest : List (Link Known)}
    (h : IsKnown ⟨first, link :: rest⟩) : IsKnown ⟨link.operand, rest⟩ where
  first := (List.forall_mem_cons.1 h.operand).1
  operand := (List.forall_mem_cons.1 h.operand).2

/-- The first two operands of a chain, as one. -/
theorem IsKnown.merge {first : Tree Known} {link : Link Known} {rest : List (Link Known)}
    (h : IsKnown ⟨first, link :: rest⟩)
    (hfault : Tree.fault link.op link.span link.operand = []) :
    IsKnown ⟨.node link.op link.span first link.operand, rest⟩ where
  first := by
    obtain ⟨x, hx⟩ := Option.isSome_iff_exists.1 h.first
    obtain ⟨y, hy⟩ := Option.isSome_iff_exists.1 h.tail.first
    have hzero := Tree.fault_eq_nil hy hfault
    dsimp only at hx hy
    simp only [Tree.value?, hx, hy, Option.bind_eq_bind, Option.bind_some]
    cases hvalue : link.op.result? x y with
    | none => exact absurd (Operator.result?_eq_none_iff.1 hvalue) hzero
    | some value => rfl
  operand := h.tail.operand

end Chain

/-! ### One sweep over a queue -/

namespace Tree

variable {tier : Tier} {first : Tree Known} {link : Link Known} {rest : List (Link Known)}
  (done : Queue) (ledger : Ledger)

theorem linkEntries_cons (link : Link Known) (rest : List (Link Known)) :
    linkEntries (link :: rest) =
      .operator link.op link.span.start :: link.operand.entry :: linkEntries rest :=
  rfl

theorem sweep_entry (tree : Tree Known) (queue : Queue) :
    Queue.sweep tier done (tree.entry :: queue) = Queue.sweep tier (tree.entry :: done) queue :=
  Queue.sweep_operand _ _ _ _

/-- The label that an operator leaves. -/
def relabel (label : String) (link : Link Known) : String :=
  if link.op = .naming then link.operand.name?.getD label else label

/-- An operator of another tier stays where it is. -/
theorem sweep_skip (h : link.op.tier ≠ tier) :
    Queue.sweep tier (first.entry :: done) (linkEntries (link :: rest)) =
      Queue.sweep tier
        (link.operand.entry :: .operator link.op link.span.start :: first.entry :: done)
        (linkEntries rest) := by
  rw [linkEntries_cons, Queue.sweep_operator_of_ne _ _ _ _ h, sweep_entry]

/-- An operator of the tier makes one operand of its neighbours. -/
theorem sweep_merge (hknown : Chain.IsKnown ⟨first, link :: rest⟩)
    (hfault : fault link.op link.span link.operand = []) (h : link.op.tier = tier) :
    ∃ trail,
      (Queue.sweep tier (first.entry :: done) (linkEntries (link :: rest))).run ledger =
        (Queue.sweep tier ((node link.op link.span first link.operand).entry :: done)
          (linkEntries rest)).run ⟨relabel ledger.label link, trail⟩ := by
  obtain ⟨x, hx⟩ := Option.isSome_iff_exists.1 hknown.first
  obtain ⟨y, hy⟩ := Option.isSome_iff_exists.1 hknown.tail.first
  obtain ⟨value, hvalue⟩ := Option.isSome_iff_exists.1 (hknown.merge hfault).first
  dsimp only at hx hy hvalue
  have hresult : link.op.result? x y = some value := by
    simpa [value?, hx, hy] using hvalue
  obtain ⟨trail, hcombine⟩ :=
    Queue.combine_of_result? link.operand.literal? link.span.start ledger hresult
  have hlabel : relabel ledger.label link =
      if link.op = .naming then link.operand.literal?.getD y.asText else ledger.label := by
    rw [relabel, name?_eq_some hy]
    rfl
  refine ⟨trail, ?_⟩
  simp only [linkEntries_cons, entry, hx, hy, hvalue, hlabel, Option.getD_some]
  rw [Queue.sweep_operator_of_eq _ _ _ _ _ _ _ h, run_bind_of_ok hcombine]
  rfl

/-- Without a division by zero, a sweep over the queue of a chain leaves the queue of the chain
that has been swept. -/
theorem sweep_linkEntries (tier : Tier) {links : List (Link Known)}
    (hknown : Chain.IsKnown ⟨first, links⟩) (hfaults : linkFaults links = []) :
    ∃ trail,
      (Queue.sweep tier (first.entry :: done) (linkEntries links)).run ledger =
        (.ok (done.reverse ++ (sweep tier first links).first.entry ::
            linkEntries (sweep tier first links).links),
          ⟨(links.filter (·.op.tier = tier)).foldl relabel ledger.label, trail⟩) ∧
      Chain.IsKnown (sweep tier first links) := by
  induction links generalizing first done ledger with
  | nil =>
    refine ⟨ledger.trail, ?_, hknown⟩
    simp only [linkEntries, List.flatMap_nil, Queue.sweep, sweep, List.reverse_cons]
    rfl
  | cons link rest ih =>
    obtain ⟨hfault, hrest⟩ := List.append_eq_nil_iff.1 hfaults
    by_cases h : link.op.tier = tier
    · obtain ⟨trail, hmerge⟩ := sweep_merge done ledger hknown hfault h
      obtain ⟨trail', hrun, hswept⟩ := ih done ⟨_, trail⟩ (hknown.merge hfault) hrest
      rw [hmerge, hrun, sweep, if_pos h, List.filter_cons_of_pos (by simpa using h)]
      exact ⟨trail', rfl, hswept⟩
    · obtain ⟨trail, hrun, hswept⟩ := ih (.operator link.op link.span.start :: first.entry :: done)
        ledger hknown.tail hrest
      rw [sweep_skip done h, hrun, sweep, if_neg h, List.filter_cons_of_neg (by simpa using h)]
      refine ⟨trail, ?_, hknown.first, List.forall_mem_cons.2 ⟨hswept.first, hswept.operand⟩⟩
      simp [linkEntries_cons]

/-- The first sweep fails at the leftmost division by zero, before any label is set. -/
theorem sweep_of_linkFaults {links : List (Link Known)} (hknown : Chain.IsKnown ⟨first, links⟩)
    {position : Nat} {more : List Nat} (hfaults : linkFaults links = position :: more) :
    ∃ trail,
      (Queue.sweep .multiplicative (first.entry :: done) (linkEntries links)).run ledger =
        (.error (.failed (.divisionByZero (some position))), ⟨ledger.label, trail⟩) := by
  induction links generalizing first done ledger with
  | nil => simp [linkFaults] at hfaults
  | cons link rest ih =>
    rw [linkFaults, List.flatMap_cons] at hfaults
    by_cases hfault : fault link.op link.span link.operand = []
    · rw [hfault, List.nil_append] at hfaults
      by_cases h : link.op.tier = .multiplicative
      · obtain ⟨trail, hmerge⟩ := sweep_merge done ledger hknown hfault h
        obtain ⟨trail', hrun⟩ := ih done ⟨_, trail⟩ (hknown.merge hfault) hfaults
        have hop : link.op ≠ .naming := by
          intro hop
          simp [hop, Operator.tier] at h
        rw [hmerge, hrun]
        simp only [relabel, if_neg hop]
        exact ⟨trail', rfl⟩
      · rw [sweep_skip done h]
        exact ih _ ledger hknown.tail hfaults
    · obtain ⟨hplace, y, hy, hzero⟩ := fault_ne_nil hfault
      rw [hplace] at hfaults
      obtain ⟨rfl, -⟩ := List.cons.inj hfaults
      have htier : link.op.tier = .multiplicative := by
        rw [hzero.1]
        rfl
      refine ⟨ledger.trail, ?_⟩
      simp only [linkEntries_cons, entry, hy, Option.getD_some]
      rw [Queue.sweep_operator_of_eq _ _ _ _ _ _ _ htier,
        run_bind_of_error (Queue.combine_of_dividesByZero _ _ _ hzero)]

/-! ### All sweeps -/

/-- Only a tree whose root is of the last tier sets a label there. -/
theorem rootName?_of_rank_le {tree : Tree Known} (h : tree.rank ≤ 4) : tree.rootName? = none := by
  cases tree with
  | leaf => rfl
  | group => rfl
  | node op =>
    cases op with
    | naming => exact absurd h (by decide : ¬Operator.looseness .naming + 1 ≤ 4)
    | _ => rfl

/-- When all that is left is `as`, the label is that of the last. -/
theorem foldl_relabel_naming {links : List (Link Known)} (hop : ∀ link ∈ links, link.op = .naming)
    (hknown : Chain.IsKnown ⟨first, links⟩) (label : String) :
    links.foldl relabel (first.rootName?.getD label) =
      (sweep .naming first links).first.rootName?.getD label := by
  induction links generalizing first with
  | nil => rfl
  | cons link rest ih =>
    obtain ⟨hlink, hoprest⟩ := List.forall_mem_cons.1 hop
    obtain ⟨y, hy⟩ := Option.isSome_iff_exists.1 hknown.tail.first
    dsimp only at hy
    have hfault : fault link.op link.span link.operand = [] := by
      simp [fault, hy, hlink, Operator.DividesByZero]
    have hrest := ih hoprest (hknown.merge hfault)
    rw [List.foldl_cons, sweep, if_pos (by rw [hlink]; rfl), ← hrest]
    simp only [relabel, rootName?, hlink, name?_eq_some hy, Option.getD_some, if_true]

/-- The operators of another tier than the last set no label. -/
theorem foldl_relabel_of_ne {links : List (Link Known)} (h : tier ≠ .naming)
    (htier : ∀ link ∈ links, link.op.tier = tier) (label : String) :
    links.foldl relabel label = label := by
  induction links with
  | nil => rfl
  | cons link rest ih =>
    obtain ⟨hlink, hrest⟩ := List.forall_mem_cons.1 htier
    have hop : link.op ≠ .naming := by
      intro hop
      rw [hop] at hlink
      exact h hlink.symm
    rw [List.foldl_cons, relabel, if_neg hop]
    exact ih hrest

/-- The labels that a sweep sets, in terms of what it makes of the first operand. -/
theorem foldl_relabel {links : List (Link Known)}
    (hswept : Chain.SweptTo tier.index ⟨first, links⟩) (hknown : Chain.IsKnown ⟨first, links⟩)
    (label : String) :
    (links.filter (·.op.tier = tier)).foldl relabel (first.rootName?.getD label) =
      (sweep tier first links).first.rootName?.getD label := by
  have hfirst := hswept.first
  by_cases h : tier = .naming
  · subst h
    have hop (link : Link Known) (hlink : link ∈ links) : link.op = .naming :=
      Operator.eq_naming_of_looseness (hswept.op link hlink)
    have hall : links.filter (·.op.tier = .naming) = links :=
      List.filter_eq_self.2 fun link hlink ↦ by simp [hop link hlink, Operator.tier]
    rw [hall, foldl_relabel_naming hop hknown]
  · have hindex : tier.index + 1 ≤ 4 := by
      cases tier <;> first | decide | exact absurd rfl h
    have hbefore : first.rank ≤ 4 := Nat.le_trans hfirst (Nat.le_of_succ_le hindex)
    have hafter : (sweep tier first links).first.rank ≤ 4 :=
      Nat.le_trans
        (Chain.SweptTo.sweep (Nat.le_succ_of_le hfirst) hswept.op hswept.operand).first hindex
    rw [rootName?_of_rank_le hbefore, rootName?_of_rank_le hafter]
    exact foldl_relabel_of_ne h (by simp) _

/-- No division is left once its tier has been swept. -/
theorem linkFaults_of_sweptTo {n : Nat} {chain : Chain Known} (h : chain.SweptTo (n + 1)) :
    linkFaults chain.links = [] := by
  refine List.flatMap_eq_nil_iff.2 fun link hlink ↦ Decidable.byContradiction fun hfault ↦ ?_
  obtain ⟨-, -, -, hzero, -⟩ := fault_ne_nil hfault
  have hloose := h.op link hlink
  rw [hzero] at hloose
  exact Nat.not_succ_le_zero n hloose

/-- Sweeping the tiers that are due one after the other leaves the tree of the chain. -/
theorem foldlM_sweep (tiers : List Tier) {n : Nat} {chain : Chain Known} {label : String}
    (ledger : Ledger) (htiers : tiers.map Tier.index = List.range' n tiers.length)
    (hlast : n + tiers.length = 5) (hswept : chain.SweptTo n) (hknown : chain.IsKnown)
    (hfaults : linkFaults chain.links = [])
    (hlabel : ledger.label = chain.first.rootName?.getD label) :
    ∃ trail,
      (tiers.foldlM (fun queue tier ↦ Queue.sweep tier [] queue)
          (chain.first.entry :: linkEntries chain.links)).run ledger =
        (.ok [(join chain.first chain.links).entry],
          ⟨(join chain.first chain.links).rootName?.getD label, trail⟩) := by
  induction tiers generalizing n chain ledger with
  | nil =>
    obtain ⟨first, links⟩ := chain
    cases links with
    | nil =>
      rw [join, ← hlabel]
      exact ⟨ledger.trail, rfl⟩
    | cons link rest =>
      have hop := hswept.op link List.mem_cons_self
      have := link.op.looseness_lt
      simp only [List.length_nil] at hlast
      omega
  | cons tier rest ih =>
    simp only [List.map_cons, List.length_cons, List.range'_succ, List.cons.injEq] at htiers
    obtain ⟨rfl, hrest⟩ := htiers
    have hnext := Chain.SweptTo.sweep (Nat.le_succ_of_le hswept.first) hswept.op hswept.operand
    obtain ⟨trail, hrun, hknown'⟩ := sweep_linkEntries [] ledger tier hknown hfaults
    rw [hlabel, foldl_relabel hswept hknown] at hrun
    obtain ⟨trail', hfinal⟩ := ih ⟨_, trail⟩ hrest
      (by simp only [List.length_cons] at hlast; omega) hnext hknown'
      (linkFaults_of_sweptTo hnext) rfl
    rw [join_sweep hswept.op hswept.operand] at hfinal
    refine ⟨trail', ?_⟩
    rw [List.foldlM_cons, sweep_entry, run_bind_of_ok hrun]
    exact hfinal

/-! ### The outermost level of a tree -/

/-- The divisions by zero of the outermost level are those of its chain: what stands on the right of
a division is a primary. -/
theorem levelFaults_eq {tree : Tree Known} (h : tree.WellBound) :
    tree.levelFaults = linkFaults tree.level.links := by
  induction tree with
  | leaf => rfl
  | group => rfl
  | node op span left right ihl ihr =>
    obtain ⟨hl, hr, -, hright⟩ := h
    have hfault : fault op span right = fault op span right.level.first := by
      by_cases hop : op = .arithmetic .divide
      · have hrank : right.rank = 0 := by
          rw [hop] at hright
          exact Nat.le_zero.1 hright
        cases right with
        | leaf => rfl
        | group => rfl
        | node => simp [rank] at hrank
      · simp [fault, Operator.DividesByZero, hop]
    rw [levelFaults, ihl hl, ihr hr, hfault, List.append_assoc]
    simp only [linkFaults, level, List.flatMap_append, List.flatMap_cons]

/-- If nothing divides by zero within parentheses, the operands of the outermost level have
values. -/
theorem isKnown_level {tree : Tree Known} (h : tree.innerFaults = []) : tree.level.IsKnown := by
  have hnode (op span) (left right : Tree Known) (h : (node op span left right).innerFaults = []) :
      left.innerFaults = [] ∧ right.innerFaults = [] :=
    List.append_eq_nil_iff.1 h
  have hprimary (primary : Tree Known) (hrank : primary.rank = 0)
      (h : primary.innerFaults = []) : primary.value?.isSome := by
    rw [value?_isSome_iff, faults, h]
    cases primary with
    | leaf => rfl
    | group => rfl
    | node => simp [rank] at hrank
  obtain ⟨hfirst, hoperand⟩ := forall_level hnode hprimary h
  exact ⟨hfirst, hoperand⟩

theorem sweptTo_level (tree : Tree Known) : tree.level.SweptTo 0 where
  first := Nat.le_of_eq tree.rank_level.1
  op _ _ := Nat.zero_le _
  operand link hlink := Nat.le_of_eq (tree.rank_level.2 link hlink)

/-- The queue of a level is well formed. -/
theorem check_entries (tree : Tree Known) (position : Nat) :
    tree.entries.check position = .ok () := by
  have chain (first : Tree Known) (links : List (Link Known)) (atEnd : SyntaxError) :
      Queue.checkFrom atEnd (first.entry :: linkEntries links) = .ok () := by
    induction links generalizing first atEnd with
    | nil => rfl
    | cons link rest ih => exact ih link.operand _
  exact chain _ _ _

/-- What the level of a tree amounts to: its value and the label that it leaves, or its leftmost
division by zero. -/
def outcome (tree : Tree Known) (label : String) : Except Error (Value × String) :=
  match tree.levelFaults with
  | [] => .ok (tree.value?.getD .null, tree.rootName?.getD label)
  | place :: _ => .error (.failed (.divisionByZero (some place)))

variable {tree : Tree Known} (hbound : tree.WellBound) (hinner : tree.innerFaults = [])

include hbound hinner

/-- The queue of a level collapses to the value of its tree, and its label is that of the root. -/
theorem collapse_entries (hlevel : tree.levelFaults = []) (ledger : Ledger) :
    ∃ trail, tree.entries.collapse.run ledger =
      (.ok (tree.value?.getD .null), ⟨tree.rootName?.getD ledger.label, trail⟩) := by
  rw [levelFaults_eq hbound] at hlevel
  have hlabel : ledger.label = tree.level.first.rootName?.getD ledger.label := by
    rw [rootName?_of_rank_le (by rw [tree.rank_level.1]; omega)]
    rfl
  obtain ⟨trail, hrun⟩ := foldlM_sweep Tier.all ledger (by rfl) rfl tree.sweptTo_level
    (isKnown_level hinner) hlevel hlabel
  rw [join_level hbound] at hrun
  refine ⟨trail, ?_⟩
  rw [Queue.collapse, entries, run_bind_of_ok hrun]
  rfl

/-- The queue of a level fails to collapse at its leftmost division by zero, with the label it was
given. -/
theorem collapse_of_levelFaults {position : Nat} {more : List Nat}
    (hlevel : tree.levelFaults = position :: more) (ledger : Ledger) :
    ∃ trail, tree.entries.collapse.run ledger =
      (.error (.failed (.divisionByZero (some position))), ⟨ledger.label, trail⟩) := by
  rw [levelFaults_eq hbound] at hlevel
  obtain ⟨trail, hrun⟩ := sweep_of_linkFaults [] ledger (isKnown_level hinner) hlevel
  refine ⟨trail, ?_⟩
  rw [Queue.collapse, entries, Tier.all, List.foldlM_cons, sweep_entry]
  exact run_bind_of_error (run_bind_of_error hrun)

/-- The queue of a level collapses to what the level amounts to. A failure leaves the label as it
was. -/
theorem run_collapse_entries (ledger : Ledger) :
    ∃ trail, tree.entries.collapse.run ledger =
      match tree.outcome ledger.label with
      | .ok (value, label) => (.ok value, ⟨label, trail⟩)
      | .error e => (.error e, ⟨ledger.label, trail⟩) := by
  cases hlevel : tree.levelFaults with
  | nil =>
    rw [outcome, hlevel]
    exact collapse_entries hbound hinner hlevel ledger
  | cons place more =>
    rw [outcome, hlevel]
    exact collapse_of_levelFaults hbound hinner hlevel ledger

end Tree

/-! ### Every well-formed queue is that of a tree -/

namespace Tree

theorem entries_node (op : Operator) (span : Span) (left right : Tree Known) :
    (node op span left right).entries =
      left.entries ++ .operator op span.start :: right.entries := by
  simp [entries, level, linkEntries]

theorem entries_attach (first : Tree Known) (op : Operator) (span : Span) (tree : Tree Known) :
    (attach first op span tree).entries =
      first.entries ++ .operator op span.start :: tree.entries := by
  induction tree with
  | leaf => exact entries_node _ _ _ _
  | group => exact entries_node _ _ _ _
  | node op' span' left right ihl _ =>
    simp only [attach]
    split
    · simp only [entries_node, ihl, List.append_assoc, List.cons_append]
    · exact entries_node _ _ _ _

theorem innerFaults_attach (first : Tree Known) (op : Operator) (span : Span) (tree : Tree Known) :
    (attach first op span tree).innerFaults = first.innerFaults ++ tree.innerFaults := by
  induction tree with
  | leaf => rfl
  | group => rfl
  | node op' span' left right ihl _ =>
    simp only [attach]
    split
    · simp only [innerFaults, ihl, List.append_assoc]
    · rfl

/-- A division by zero of the outermost level is a division of its queue. -/
theorem operator_mem_entries {tree : Tree Known} {position : Nat}
    (h : position ∈ tree.levelFaults) :
    Entry.operator (.arithmetic .divide) position ∈ tree.entries := by
  induction tree with
  | leaf => simp [levelFaults] at h
  | group => simp [levelFaults] at h
  | node op span left right ihl ihr =>
    simp only [levelFaults, List.mem_append] at h
    rw [entries_node, List.mem_append, List.mem_cons]
    rcases h with (h | h) | h
    · exact .inl (ihl h)
    · obtain ⟨hfault, value, -, hzero⟩ := fault_ne_nil (List.ne_nil_of_mem h)
      rw [hfault, List.mem_singleton] at h
      exact .inr (.inl (by rw [h, hzero.1]))
    · exact .inr (.inr (ihr h))

end Tree

namespace Queue

variable {queue : Queue}

/-- A well-formed queue is the queue of a tree in which nothing is in parentheses. -/
theorem exists_tree {atEnd : SyntaxError} (h : queue.checkFrom atEnd = .ok ()) :
    ∃ tree : Tree Known, tree.WellBound ∧ tree.innerFaults = [] ∧ tree.entries = queue := by
  fun_induction queue.checkFrom atEnd with
  | case1 => cases h
  | case2 => cases h
  | case3 _ value literal position => exact ⟨.leaf ⟨value, literal, position⟩, trivial, rfl, rfl⟩
  | case4 => cases h
  | case5 _ value literal place op position rest ih =>
    obtain ⟨tree, hbound, hinner, hentries⟩ := ih h
    have hleaf : (Tree.leaf ⟨value, literal, place⟩ : Tree Known).WellBound := trivial
    refine ⟨(Tree.leaf ⟨value, literal, place⟩).attach op ⟨position, position⟩ tree,
      hleaf.attach rfl _ _ hbound, ?_, ?_⟩
    · rw [Tree.innerFaults_attach, hinner]
      rfl
    · rw [Tree.entries_attach, hentries]
      rfl

/-- A well-formed queue collapses to a value, unless it divides by zero. -/
theorem collapse_of_check {position : Nat} (h : queue.check position = .ok ()) (ledger : Ledger) :
    (∃ value ledger', queue.collapse.run ledger = (.ok value, ledger')) ∨
      ∃ place ledger', Entry.operator (.arithmetic .divide) place ∈ queue ∧
        queue.collapse.run ledger =
          (.error (.failed (.divisionByZero (some place))), ledger') := by
  obtain ⟨tree, hbound, hinner, rfl⟩ := exists_tree h
  cases hlevel : tree.levelFaults with
  | nil =>
    obtain ⟨trail, hrun⟩ := Tree.collapse_entries hbound hinner hlevel ledger
    exact .inl ⟨_, _, hrun⟩
  | cons place more =>
    obtain ⟨trail, hrun⟩ := Tree.collapse_of_levelFaults hbound hinner hlevel ledger
    refine .inr ⟨place, _, Tree.operator_mem_entries ?_, hrun⟩
    rw [hlevel]
    exact List.mem_cons_self

end Queue

end Qualifier
