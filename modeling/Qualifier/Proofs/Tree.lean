import Qualifier.Lexeme

/-!
# Syntax trees

The trees that expressions stand for. A tree is well bound if the tiers bind in their order and
operators of one tier bind from left to right: below a node, the left part may be a node of the same
tier or of a tighter one, and the right part only of a tighter one. Parentheses start afresh. The
operators of each tier are written out (`Tier.operators`), and that operators are swept as they are
written out there is `Operator.looseness_eq`.

Two flat views of a tree meet here. `Tree.level` cuts a tree into the primaries of its outermost
level and the operators between them, and `Tree.join` puts such a chain together again, from the
right, by `Tree.attach`; on well-bound trees nothing is lost (`join_level`). `Tree.sweep` builds the
nodes of one tier from left to right, and does not change what a chain amounts to (`join_sweep`), so
that sweeping tier by tier, the tightest first, ends with the one well-bound tree of the chain.
-/

namespace Qualifier

/-- A syntax tree with operands of type `α`. -/
inductive Tree (α : Type) where
  /-- An operand. -/
  | leaf (operand : α)
  /-- An expression in parentheses. -/
  | group (opening closing : Span) (body : Tree α)
  /-- An operator with its two sides. -/
  | node (op : Operator) (span : Span) (left right : Tree α)

/-- An operator and the operand behind it. -/
structure Link (α : Type) where
  /-- The operator. -/
  op : Operator
  /-- Where the operator stands. -/
  span : Span
  /-- The operand. -/
  operand : Tree α

/-- Operands with operators between them. -/
structure Chain (α : Type) where
  /-- The first operand. -/
  first : Tree α
  /-- What follows it. -/
  links : List (Link α)

theorem Tier.index_injective {s t : Tier} (h : s.index = t.index) : s = t := by
  cases s <;> cases t <;> simp_all [Tier.index]

/-! ### How operators bind -/

/-- The operators of a tier. -/
def Tier.operators : Tier → List Operator
  | .multiplicative => [.arithmetic .multiply, .arithmetic .divide]
  | .additive => [.arithmetic .add, .arithmetic .subtract]
  | .comparison =>
    [.comparison .equal, .comparison .notEqual, .comparison .identical, .comparison .notIdentical,
      .comparison .less, .comparison .greater, .comparison .greaterEqual, .comparison .lessEqual,
      .comparison .lessGreater]
  | .logical => [.logic .and, .logic .or]
  | .naming => [.naming]

/-- How loosely an operator binds: the place of its tier, the tightest first. -/
def Operator.looseness (op : Operator) : Nat :=
  [Tier.multiplicative, .additive, .comparison, .logical, .naming].findIdx (op ∈ ·.operators)

/-- An operator is of the tier whose operators it is among. -/
theorem Tier.mem_operators_iff {tier : Tier} {op : Operator} :
    op ∈ tier.operators ↔ op.tier = tier := by
  rcases op with op | op | op | _ <;> (try cases op) <;> cases tier <;> decide

/-- Operators bind as their tiers are swept. -/
theorem Operator.looseness_eq (op : Operator) : op.looseness = op.tier.index := by
  rcases op with op | op | op | _ <;> (try cases op) <;> rfl

theorem Operator.looseness_eq_iff {op : Operator} {tier : Tier} :
    op.looseness = tier.index ↔ op.tier = tier := by
  rw [op.looseness_eq]
  exact ⟨Tier.index_injective, congrArg Tier.index⟩

theorem Operator.looseness_lt (op : Operator) : op.looseness < 5 := by
  rw [op.looseness_eq]
  cases op.tier <;> decide

/-- The loosest operator is `as`. -/
theorem Operator.eq_naming_of_looseness {op : Operator} (h : 4 ≤ op.looseness) : op = .naming := by
  rw [op.looseness_eq] at h
  rcases op with op | op | op | _
  · cases op <;> simp [Operator.tier, Tier.index] at h
  · simp [Operator.tier, Tier.index] at h
  · simp [Operator.tier, Tier.index] at h
  · rfl

namespace Tree

variable {α : Type}

/-- How loosely the outermost operator binds; a tree without one is tighter than every node. -/
def rank : Tree α → Nat
  | .leaf _ | .group .. => 0
  | .node op .. => op.looseness + 1

/-- The tiers bind in their order, and each from left to right. -/
def WellBound : Tree α → Prop
  | .leaf _ => True
  | .group _ _ body => body.WellBound
  | .node op _ left right =>
    left.WellBound ∧ right.WellBound ∧
      left.rank ≤ op.looseness + 1 ∧ right.rank ≤ op.looseness

instance decidableWellBound : (tree : Tree α) → Decidable tree.WellBound
  | .leaf _ => .isTrue trivial
  | .group _ _ body => decidableWellBound body
  | .node _ _ left right =>
    have := decidableWellBound left
    have := decidableWellBound right
    inferInstanceAs (Decidable (_ ∧ _ ∧ _ ∧ _))

/-- How deep parentheses nest. -/
def depth : Tree α → Nat
  | .leaf _ => 0
  | .group _ _ body => body.depth + 1
  | .node _ _ left right => max left.depth right.depth

/-! ### Putting an operand and an operator in front -/

/-- The tree with an operand and an operator in front of it: they go down the left edge to where
the tree binds more tightly than the operator. -/
def attach (first : Tree α) (op : Operator) (span : Span) : Tree α → Tree α
  | .node op' span' left right =>
    if op.looseness ≤ op'.looseness then .node op' span' (attach first op span left) right
    else .node op span first (.node op' span' left right)
  | tree => .node op span first tree

/-- In front of a tree that binds more tightly the operator becomes the root. -/
theorem attach_of_rank_le (first : Tree α) {op : Operator} (span : Span) {tree : Tree α}
    (h : tree.rank ≤ op.looseness) : attach first op span tree = .node op span first tree := by
  cases tree with
  | leaf => rfl
  | group => rfl
  | node op' _ left right =>
    simp only [rank] at h
    rw [attach, if_neg (by omega)]

/-- Two operands in front, of which the first binds at least as tightly: they are one operand. -/
theorem attach_attach (first second : Tree α) {op op' : Operator} (span span' : Span)
    (tree : Tree α) (hop : op.looseness ≤ op'.looseness)
    (hsecond : second.rank ≤ op.looseness) :
    attach first op span (attach second op' span' tree) =
      attach (.node op span first second) op' span' tree := by
  have root (t : Tree α) : attach first op span (.node op' span' second t) =
      .node op' span' (.node op span first second) t := by
    rw [attach, if_pos hop, attach_of_rank_le first span hsecond]
  induction tree with
  | leaf => exact root _
  | group => exact root _
  | node op'' span'' left right ihl _ =>
    simp only [attach]
    split
    · next h => rw [attach, if_pos (Nat.le_trans hop h), ihl]
    · exact root _

theorem rank_attach (first : Tree α) (op : Operator) (span : Span) (tree : Tree α) :
    (attach first op span tree).rank = max (op.looseness + 1) tree.rank := by
  cases tree with
  | leaf => simp [attach, rank]
  | group => simp [attach, rank]
  | node op' _ left right =>
    simp only [attach]
    split
    · simp only [rank]
      omega
    · simp only [rank]
      omega

theorem WellBound.attach {first tree : Tree α} (hfirst : first.WellBound) (hrank : first.rank = 0)
    (op : Operator) (span : Span) (h : tree.WellBound) : (attach first op span tree).WellBound := by
  induction tree with
  | leaf => exact ⟨hfirst, h, by omega, by simp [rank]⟩
  | group => exact ⟨hfirst, h, by omega, by simp [rank]⟩
  | node op' span' left right ihl _ =>
    simp only [Tree.attach]
    split
    · next hle =>
      refine ⟨ihl h.1, h.2.1, ?_, h.2.2.2⟩
      have hl := h.2.2.1
      rw [rank_attach]
      omega
    · exact ⟨hfirst, h, by omega, by simp only [rank]; omega⟩

theorem depth_attach (first : Tree α) (op : Operator) (span : Span) (tree : Tree α) :
    (attach first op span tree).depth = max first.depth tree.depth := by
  induction tree with
  | leaf => rfl
  | group => rfl
  | node op' _ left right ihl _ =>
    simp only [attach]
    split
    · simp only [depth, ihl]
      omega
    · rfl

/-! ### The outermost level -/

/-- The primaries of the outermost level of parentheses, with the operators between them. -/
def level : Tree α → Chain α
  | .node op span left right =>
    ⟨left.level.first, left.level.links ++ ⟨op, span, right.level.first⟩ :: right.level.links⟩
  | tree => ⟨tree, []⟩

/-- The tree that a chain amounts to. -/
def join (first : Tree α) : List (Link α) → Tree α
  | [] => first
  | link :: rest => attach first link.op link.span (join link.operand rest)

/-- The operators of the outermost level bind no more loosely than the root. -/
theorem index_lt_rank_of_mem_level {tree : Tree α} (h : tree.WellBound) {link : Link α}
    (hlink : link ∈ tree.level.links) : link.op.looseness < tree.rank := by
  induction tree with
  | leaf => simp [level] at hlink
  | group => simp [level] at hlink
  | node op span left right ihl ihr =>
    obtain ⟨hl, hr, hleft, hright⟩ := h
    simp only [level, List.mem_append, List.mem_cons] at hlink
    simp only [rank]
    rcases hlink with hlink | rfl | hlink
    · have := ihl hl hlink
      omega
    · exact Nat.lt_succ_self _
    · have := ihr hr hlink
      omega

/-- The loosest operator of a chain, if it is the last such, is the root. -/
theorem join_append (first : Tree α) {before : List (Link α)} {op : Operator} (span : Span)
    (next : Tree α) {after : List (Link α)}
    (hbefore : ∀ link ∈ before, link.op.looseness ≤ op.looseness)
    (hafter : (join next after).rank ≤ op.looseness) :
    join first (before ++ ⟨op, span, next⟩ :: after) =
      .node op span (join first before) (join next after) := by
  induction before generalizing first with
  | nil =>
    show attach first op span (join next after) = .node op span first (join next after)
    exact attach_of_rank_le first span hafter
  | cons link rest ih =>
    obtain ⟨hlink, hrest⟩ := List.forall_mem_cons.1 hbefore
    -- behind the first operand the operator is the root already, and stays it
    rw [List.cons_append, join, ih _ hrest, attach, if_pos hlink, join]

/-- A well-bound tree is what its outermost level amounts to. -/
theorem join_level {tree : Tree α} (h : tree.WellBound) :
    join tree.level.first tree.level.links = tree := by
  induction tree with
  | leaf => rfl
  | group => rfl
  | node op span left right ihl ihr =>
    obtain ⟨hl, hr, hleft, hright⟩ := h
    have hlevel := ihl hl
    have hrest := ihr hr
    rw [level, join_append left.level.first span right.level.first]
    · rw [hlevel, hrest]
    · intro link hlink
      have := index_lt_rank_of_mem_level hl hlink
      omega
    · rw [hrest]
      exact hright

/-- What a node passes on to its sides reaches the primaries of the outermost level. -/
theorem forall_level {P Q : Tree α → Prop}
    (hnode : ∀ op span left right, P (.node op span left right) → P left ∧ P right)
    (hprimary : ∀ primary, primary.rank = 0 → P primary → Q primary) {tree : Tree α} (h : P tree) :
    Q tree.level.first ∧ ∀ link ∈ tree.level.links, Q link.operand := by
  induction tree with
  | leaf operand => exact ⟨hprimary _ rfl h, List.forall_mem_nil _⟩
  | group opening closing body => exact ⟨hprimary _ rfl h, List.forall_mem_nil _⟩
  | node op span left right ihl ihr =>
    obtain ⟨hl, hr⟩ := hnode op span left right h
    obtain ⟨hfirst, hlinks⟩ := ihl hl
    obtain ⟨hnext, hrest⟩ := ihr hr
    exact ⟨hfirst, List.forall_mem_append.2 ⟨hlinks, List.forall_mem_cons.2 ⟨hnext, hrest⟩⟩⟩

/-- The trees that the outermost level is made of are tighter than every node. -/
theorem rank_level (tree : Tree α) :
    tree.level.first.rank = 0 ∧ ∀ link ∈ tree.level.links, link.operand.rank = 0 :=
  forall_level (P := fun _ ↦ True) (fun _ _ _ _ _ ↦ ⟨trivial, trivial⟩) (fun _ hrank _ ↦ hrank)
    trivial

theorem WellBound.level {tree : Tree α} (h : tree.WellBound) :
    tree.level.first.WellBound ∧ ∀ link ∈ tree.level.links, link.operand.WellBound :=
  forall_level (fun _ _ _ _ h ↦ ⟨h.1, h.2.1⟩) (fun _ _ h ↦ h) h

/-! ### Sweeping a tier -/

/-- Makes nodes of the operators of one tier, from left to right. -/
def sweep (tier : Tier) (first : Tree α) : List (Link α) → Chain α
  | [] => ⟨first, []⟩
  | link :: rest =>
    if link.op.tier = tier then sweep tier (.node link.op link.span first link.operand) rest
    else
      let swept := sweep tier link.operand rest
      ⟨first, ⟨link.op, link.span, swept.first⟩ :: swept.links⟩

end Tree

namespace Chain

variable {α : Type}

/-- The tiers before the one with the given index have been swept: no operator of theirs is left in
the chain, and every root is of one of them. -/
structure SweptTo (n : Nat) (chain : Chain α) : Prop where
  /-- The first operand is made of the tiers before. -/
  first : chain.first.rank ≤ n
  /-- The operators are not of the tiers before. -/
  op : ∀ link ∈ chain.links, n ≤ link.op.looseness
  /-- The other operands are made of the tiers before. -/
  operand : ∀ link ∈ chain.links, link.operand.rank ≤ n

theorem SweptTo.tail {n : Nat} {first : Tree α} {link : Link α} {rest : List (Link α)}
    (h : SweptTo n ⟨first, link :: rest⟩) : SweptTo n ⟨link.operand, rest⟩ where
  first := h.operand link List.mem_cons_self
  op := (List.forall_mem_cons.1 h.op).2
  operand := (List.forall_mem_cons.1 h.operand).2

/-- Sweeping a tier gets one tier further. -/
theorem SweptTo.sweep {tier : Tier} {first : Tree α} {links : List (Link α)}
    (hfirst : first.rank ≤ tier.index + 1)
    (hop : ∀ link ∈ links, tier.index ≤ link.op.looseness)
    (hoperand : ∀ link ∈ links, link.operand.rank ≤ tier.index) :
    SweptTo (tier.index + 1) (Tree.sweep tier first links) := by
  induction links generalizing first with
  | nil => exact ⟨hfirst, by simp [Tree.sweep], by simp [Tree.sweep]⟩
  | cons link rest ih =>
    obtain ⟨hle, hoprest⟩ := List.forall_mem_cons.1 hop
    obtain ⟨hlink, hoperandrest⟩ := List.forall_mem_cons.1 hoperand
    simp only [Tree.sweep]
    split
    · next h =>
      -- the new node is of the tier
      have hnode : (Tree.node link.op link.span first link.operand).rank ≤ tier.index + 1 :=
        Nat.succ_le_succ (Nat.le_of_eq (Operator.looseness_eq_iff.2 h))
      exact ih hnode hoprest hoperandrest
    · next h =>
      have hswept := ih (Nat.le_succ_of_le hlink) hoprest hoperandrest
      have hne : link.op.looseness ≠ tier.index := fun he ↦ h (Operator.looseness_eq_iff.1 he)
      have hlt : tier.index + 1 ≤ link.op.looseness := by omega
      exact ⟨hfirst, List.forall_mem_cons.2 ⟨hlt, hswept.op⟩,
        List.forall_mem_cons.2 ⟨hswept.first, hswept.operand⟩⟩

end Chain

namespace Tree

variable {α : Type}

/-- Between tighter parts and looser operators an operator binds its two neighbours. -/
theorem join_node (first second : Tree α) {op : Operator} (span : Span) {rest : List (Link α)}
    (hsecond : second.rank ≤ op.looseness)
    (hrest : ∀ link ∈ rest, op.looseness ≤ link.op.looseness) :
    join (.node op span first second) rest = join first (⟨op, span, second⟩ :: rest) := by
  cases rest with
  | nil => exact (attach_of_rank_le first span hsecond).symm
  | cons link rest =>
    simp only [join]
    exact (attach_attach first second span link.span _ (hrest link List.mem_cons_self) hsecond).symm

/-- Sweeping a tier that is due does not change what a chain amounts to. -/
theorem join_sweep {tier : Tier} {first : Tree α} {links : List (Link α)}
    (hop : ∀ link ∈ links, tier.index ≤ link.op.looseness)
    (hoperand : ∀ link ∈ links, link.operand.rank ≤ tier.index) :
    join (sweep tier first links).first (sweep tier first links).links = join first links := by
  induction links generalizing first with
  | nil => rfl
  | cons link rest ih =>
    obtain ⟨-, hoprest⟩ := List.forall_mem_cons.1 hop
    obtain ⟨hlink, hoperandrest⟩ := List.forall_mem_cons.1 hoperand
    simp only [sweep]
    split
    · next h =>
      rw [ih hoprest hoperandrest]
      rw [← Operator.looseness_eq_iff.2 h] at hlink hoprest
      exact join_node first link.operand link.span hlink hoprest
    · rw [join, ih hoprest hoperandrest, join]

end Tree

end Qualifier
