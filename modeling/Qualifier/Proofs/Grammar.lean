import Qualifier.Proofs.Tree

/-!
# The grammar of expressions

The lists of lexemes that are expressions:

  `Expression ::= Primary (Operator Primary)*`
  `Primary ::= Operand | '(' Expression ')'`

The grammar is ambiguous as to which operator binds which operands; `Tree.WellBound` decides. The
main statements are `IsExpression.exists_tree`, that every expression is the spelling of a
well-bound tree, and `Tree.eq_of_lexemes_eq`, that it is so of only one. The second rests on
primaries being prefix-free: a group ends at the parenthesis that matches its own, so two primaries
at the head of one list are equal.
-/

namespace Qualifier

mutual

/-- The expressions in which parentheses nest at most so many levels deep. -/
inductive IsExpression : Nat → List Lexeme → Prop
  /-- A primary is an expression. -/
  | one {limit : Nat} {primary : List Lexeme} (h : IsPrimary limit primary) :
    IsExpression limit primary
  /-- A primary, an operator and an expression are an expression. -/
  | more {limit : Nat} {primary rest : List Lexeme} (op : Operator) (span : Span)
    (h : IsPrimary limit primary) (hrest : IsExpression limit rest) :
    IsExpression limit (primary ++ .operator op span :: rest)

/-- The operands, and the expressions in parentheses, in which parentheses nest at most so many
levels deep. -/
inductive IsPrimary : Nat → List Lexeme → Prop
  /-- An operand is a primary. -/
  | operand {limit : Nat} (text : String) (span : Span) : IsPrimary limit [.operand text span]
  /-- An expression in parentheses is a primary, one level deeper. -/
  | group {limit : Nat} {body : List Lexeme} (opening closing : Span)
    (h : IsExpression limit body) :
    IsPrimary (limit + 1) (.opening opening :: (body ++ [.closing closing]))

end

/-- An operand as it is written. -/
structure Written where
  /-- Its text. -/
  text : String
  /-- Where it stands. -/
  span : Span

namespace Tree

/-- The lexemes that spell a tree. -/
def lexemes : Tree Written → List Lexeme
  | .leaf operand => [.operand operand.text operand.span]
  | .group opening closing body => .opening opening :: (body.lexemes ++ [.closing closing])
  | .node op span left right => left.lexemes ++ .operator op span :: right.lexemes

theorem lexemes_attach (first : Tree Written) (op : Operator) (span : Span) (tree : Tree Written) :
    (attach first op span tree).lexemes = first.lexemes ++ .operator op span :: tree.lexemes := by
  induction tree with
  | leaf => rfl
  | group => rfl
  | node op' span' left right ihl _ =>
    simp only [attach]
    split
    · simp only [lexemes, ihl, List.append_assoc, List.cons_append]
    · rfl

end Tree

/-! ### Every expression has a tree -/

mutual

/-- An expression is spelled by a well-bound tree that nests no deeper. -/
theorem IsExpression.exists_tree {limit : Nat} {lexemes : List Lexeme} :
    IsExpression limit lexemes →
      ∃ tree : Tree Written, tree.WellBound ∧ tree.lexemes = lexemes ∧ tree.depth ≤ limit
  | .one h => by
    obtain ⟨tree, hbound, -, hlexemes, hdepth⟩ := h.exists_tree
    exact ⟨tree, hbound, hlexemes, hdepth⟩
  | .more op span h hrest => by
    obtain ⟨first, hfirst, hrank, hlexemes, hdepth⟩ := h.exists_tree
    obtain ⟨tree, htree, hlexemes', hdepth'⟩ := hrest.exists_tree
    refine ⟨first.attach op span tree, hfirst.attach hrank op span htree, ?_, ?_⟩
    · rw [Tree.lexemes_attach, hlexemes, hlexemes']
    · rw [Tree.depth_attach]
      omega

/-- A primary is spelled by a well-bound tree without an operator outside of parentheses. -/
theorem IsPrimary.exists_tree {limit : Nat} {lexemes : List Lexeme} :
    IsPrimary limit lexemes →
      ∃ tree : Tree Written,
        tree.WellBound ∧ tree.rank = 0 ∧ tree.lexemes = lexemes ∧ tree.depth ≤ limit
  | .operand text span => ⟨.leaf ⟨text, span⟩, trivial, rfl, rfl, Nat.zero_le _⟩
  | .group opening closing h => by
    obtain ⟨body, hbound, hlexemes, hdepth⟩ := h.exists_tree
    refine ⟨.group opening closing body, hbound, rfl, ?_, Nat.succ_le_succ hdepth⟩
    rw [Tree.lexemes, hlexemes]

end

/-! ### No expression has two -/

namespace Tree

/-- The lexemes of the links of a chain. -/
def linkLexemes (links : List (Link Written)) : List Lexeme :=
  links.flatMap fun link ↦ .operator link.op link.span :: link.operand.lexemes

/-- A tree is spelled as its outermost level is. -/
theorem lexemes_level (tree : Tree Written) :
    tree.lexemes = tree.level.first.lexemes ++ linkLexemes tree.level.links := by
  induction tree with
  | leaf => rfl
  | group => simp [level, linkLexemes]
  | node op span left right ihl ihr =>
    simp only [lexemes, level, ihl, ihr]
    simp [linkLexemes]

/-- The text behind a whole level: it does not go on with an operator. -/
def EndsLevel (rest : List Lexeme) : Prop :=
  ∀ op span after, rest ≠ .operator op span :: after

theorem endsLevel_nil : EndsLevel [] := by
  simp [EndsLevel]

theorem endsLevel_closing (span : Span) (rest : List Lexeme) :
    EndsLevel (.closing span :: rest) := by
  simp [EndsLevel]

/-- No other primary begins where this one does. -/
def IsDistinct (primary : Tree Written) : Prop :=
  ∀ other : Tree Written, other.WellBound → other.rank = 0 → ∀ x y,
    primary.lexemes ++ x = other.lexemes ++ y → primary = other ∧ x = y

/-- Two chains of primaries that begin where the other does are equal. -/
theorem links_eq_of_append_eq {links others : List (Link Written)}
    (hlinks : ∀ link ∈ links, link.operand.IsDistinct)
    (hothers : ∀ link ∈ others, link.operand.WellBound ∧ link.operand.rank = 0)
    {x y : List Lexeme} (hx : EndsLevel x) (hy : EndsLevel y)
    (h : linkLexemes links ++ x = linkLexemes others ++ y) : links = others ∧ x = y := by
  induction links generalizing others with
  | nil =>
    cases others with
    | nil => exact ⟨rfl, h⟩
    | cons other rest => exact absurd h (hx _ _ _)
  | cons link rest ih =>
    cases others with
    | nil => exact absurd h.symm (hy _ _ _)
    | cons other rest' =>
      simp only [linkLexemes, List.flatMap_cons, List.cons_append, List.append_assoc,
        List.cons.injEq, Lexeme.operator.injEq] at h
      obtain ⟨⟨hop, hspan⟩, h⟩ := h
      obtain ⟨hlink, hlinksrest⟩ := List.forall_mem_cons.1 hlinks
      obtain ⟨⟨hbound, hrank⟩, hothersrest⟩ := List.forall_mem_cons.1 hothers
      obtain ⟨hoperand, h⟩ := hlink other.operand hbound hrank _ _ h
      obtain ⟨hrest, hxy⟩ := ih hlinksrest hothersrest h
      obtain ⟨op, span, operand⟩ := link
      obtain ⟨op', span', operand'⟩ := other
      subst hop hspan hoperand hrest
      exact ⟨rfl, hxy⟩

/-- Two well-bound trees that begin in one place and end a level there are equal, if the primaries
of the first are distinct. -/
theorem eq_of_append_eq {tree other : Tree Written} (htree : tree.WellBound)
    (hother : other.WellBound) (hfirst : tree.level.first.IsDistinct)
    (hlinks : ∀ link ∈ tree.level.links, link.operand.IsDistinct) {x y : List Lexeme}
    (hx : EndsLevel x) (hy : EndsLevel y) (h : tree.lexemes ++ x = other.lexemes ++ y) :
    tree = other ∧ x = y := by
  rw [lexemes_level tree, lexemes_level other, List.append_assoc, List.append_assoc] at h
  obtain ⟨hfirst, h⟩ := hfirst _ hother.level.1 other.rank_level.1 _ _ h
  obtain ⟨hlinks, hxy⟩ := links_eq_of_append_eq hlinks
    (fun link hlink ↦ ⟨hother.level.2 link hlink, other.rank_level.2 link hlink⟩) hx hy h
  refine ⟨?_, hxy⟩
  rw [← join_level htree, ← join_level hother, hfirst, hlinks]

theorem isDistinct_leaf (operand : Written) : (leaf operand).IsDistinct := by
  intro other _ hrank x y hxy
  cases other with
  | leaf operand' =>
    obtain ⟨text, span⟩ := operand
    obtain ⟨text', span'⟩ := operand'
    simp only [lexemes, List.cons_append, List.nil_append, List.cons.injEq,
      Lexeme.operand.injEq] at hxy
    obtain ⟨⟨rfl, rfl⟩, hxy⟩ := hxy
    exact ⟨rfl, hxy⟩
  | group => simp [lexemes] at hxy
  | node => simp [rank] at hrank

/-- A group is distinct if the primaries in it are: its closing parenthesis ends the level. -/
theorem isDistinct_group (opening closing : Span) {body : Tree Written} (hbody : body.WellBound)
    (hfirst : body.level.first.IsDistinct)
    (hlinks : ∀ link ∈ body.level.links, link.operand.IsDistinct) :
    (group opening closing body).IsDistinct := by
  intro other hother hrank x y hxy
  cases other with
  | leaf => simp [lexemes] at hxy
  | group opening' closing' body' =>
    simp only [lexemes, List.cons_append, List.append_assoc, List.nil_append,
      List.cons.injEq, Lexeme.opening.injEq] at hxy
    obtain ⟨rfl, hxy⟩ := hxy
    have hbody' : body'.WellBound := hother
    obtain ⟨rfl, htail⟩ := eq_of_append_eq hbody hbody' hfirst hlinks
      (endsLevel_closing closing x) (endsLevel_closing closing' y) hxy
    obtain ⟨hclosing, rfl⟩ := List.cons.inj htail
    cases hclosing
    exact ⟨rfl, rfl⟩
  | node => simp [rank] at hrank

/-- The primaries of a well-bound tree are distinct. -/
theorem isDistinct_level {tree : Tree Written} (h : tree.WellBound) :
    tree.level.first.IsDistinct ∧ ∀ link ∈ tree.level.links, link.operand.IsDistinct := by
  induction tree with
  | leaf operand => exact ⟨isDistinct_leaf operand, List.forall_mem_nil _⟩
  | group opening closing body ih =>
    have hbody : body.WellBound := h
    obtain ⟨hfirst, hlinks⟩ := ih hbody
    exact ⟨isDistinct_group opening closing hbody hfirst hlinks, List.forall_mem_nil _⟩
  | node op span left right ihl ihr =>
    obtain ⟨hl, hr, -, -⟩ := h
    obtain ⟨hfirst, hlinks⟩ := ihl hl
    obtain ⟨hnext, hrest⟩ := ihr hr
    exact ⟨hfirst, List.forall_mem_append.2 ⟨hlinks, List.forall_mem_cons.2 ⟨hnext, hrest⟩⟩⟩

/-- A well-bound tree is determined by its spelling. -/
theorem eq_of_lexemes_eq {tree other : Tree Written} (htree : tree.WellBound)
    (hother : other.WellBound) (h : tree.lexemes = other.lexemes) : tree = other := by
  obtain ⟨hfirst, hlinks⟩ := isDistinct_level htree
  have hnil : tree.lexemes ++ [] = other.lexemes ++ [] := by rw [h]
  exact (eq_of_append_eq htree hother hfirst hlinks endsLevel_nil endsLevel_nil hnil).1

end Tree

end Qualifier
