import Qualifier.Evaluator
import Qualifier.Proofs.Acceptance
import Qualifier.Proofs.Joining

/-!
# Grouping

Two sources in parentheses with an operator between them. If callbacks are constant, what such a
source amounts to follows from what the two amount to by themselves, whatever they are. The main
statement is `Evaluator.evaluate_groups`, which names the operator by its spelling only, in the
source as in the answer (`Operator.applySymbol`).

The lexemes of the two sources are found in the whole, only further on (`Lexeme.scan_groups`), and
so are their trees. A tree further on has the same value and the same labels (`Tree.agrees_shift`),
and so it does as a group, where the one thing to mind is that a numeral is a number in parentheses
and a text by itself (`Expression.groupValue`).
-/

namespace Qualifier

/-! ### Trees further on -/

/-- The operand that stands further on. -/
def Written.shift (distance : Nat) (operand : Written) : Written :=
  { operand with span := operand.span.shift distance }

namespace Tree

/-- The tree that stands further on. -/
def shift (distance : Nat) : Tree Written → Tree Written
  | .leaf operand => .leaf (operand.shift distance)
  | .group opening closing body =>
    .group (opening.shift distance) (closing.shift distance) (body.shift distance)
  | .node op span left right =>
    .node op (span.shift distance) (left.shift distance) (right.shift distance)

section

variable (distance : Nat) (tree : Tree Written)

theorem lexemes_shift : (tree.shift distance).lexemes = tree.lexemes.map (·.shift distance) := by
  induction tree with
  | leaf => rfl
  | group _ _ _ ih => simp [shift, lexemes, ih, Lexeme.shift]
  | node _ _ _ _ ihl ihr => simp [shift, lexemes, ihl, ihr, Lexeme.shift]

theorem rank_shift : (tree.shift distance).rank = tree.rank := by
  cases tree <;> rfl

theorem depth_shift : (tree.shift distance).depth = tree.depth := by
  induction tree with
  | leaf => rfl
  | group _ _ _ ih => simp only [shift, depth, ih]
  | node _ _ _ _ ihl ihr => simp only [shift, depth, ihl, ihr]

variable {tree}

theorem WellBound.shift (h : tree.WellBound) : (tree.shift distance).WellBound := by
  induction tree with
  | leaf => trivial
  | group _ _ _ ih => exact ih h
  | node op span left right ihl ihr =>
    obtain ⟨hl, hr, hleft, hright⟩ := h
    refine ⟨ihl hl, ihr hr, ?_, ?_⟩
    · rwa [rank_shift]
    · rwa [rank_shift]

end

/-- The trees are the same in all that can be told of them from outside but their places. -/
structure Agrees (tree other : Tree Known) : Prop where
  /-- They have the same value, -/
  value : tree.value? = other.value?
  /-- they set the same labels, -/
  names : tree.names = other.names
  /-- and they are literals of the same spelling, or neither is one. -/
  literal : tree.literal? = other.literal?

end Tree

/-! ### Constant callbacks -/

/-- Each callback answers the same in all states of the world. -/
def Environment.IsConstant {σ : Type} (env : Environment σ) : Prop :=
  ∀ name callback, env.callback? name = some callback →
    ∀ world world', (callback world).1 = (callback world').1

section

variable {σ : Type} {env : Environment σ}

theorem Environment.IsConstant.resolve_eq (h : env.IsConstant) (operand : Operand)
    (world world' : σ) : (operand.resolve env world).1 = (operand.resolve env world').1 := by
  cases operand with
  | literal => rfl
  | path root segments =>
    simp only [Operand.resolve, Operand.lookUp]
    cases env.datum? root with
    | none => rfl
    | some datum =>
      dsimp only
      cases datum.descend segments <;> rfl
  | call name =>
    simp only [Operand.resolve, Operand.lookUp]
    cases hcallback : env.callback? name with
    | none => rfl
    | some callback => exact congrArg Value.ofHost (h name callback hcallback world world')

/-- Further on and in another state of the world, a tree is the same. -/
theorem Tree.agrees_shift (h : env.IsConstant) (distance : Nat) (tree : Tree Written)
    (world world' : σ) :
    Agrees ((tree.shift distance).resolve env world).1 (tree.resolve env world').1 := by
  induction tree generalizing world world' with
  | leaf operand =>
    exact ⟨congrArg some (h.resolve_eq (.ofText operand.text) world world'), rfl, rfl⟩
  | group _ _ _ ih => exact ⟨(ih world world').value, (ih world world').names, rfl⟩
  | node op span left right ihl ihr =>
    have hleft := ihl world world'
    have hright := ihr ((left.shift distance).resolve env world).2 (left.resolve env world').2
    refine ⟨?_, ?_, rfl⟩
    · simp only [shift, resolve, value?, hleft.value, hright.value]
    · simp only [shift, resolve, names, name?, hleft.names, hright.names, hright.value,
        hright.literal]

end

/-! ### Labels -/

/-- Whether a lexeme is the operator `as`. -/
def Lexeme.isNaming : Lexeme → Bool
  | .operator .naming _ => true
  | _ => false

namespace Tree

/-- A node with a value has sides with values. -/
theorem value?_node {op : Operator} {span : Span} {left right : Tree Known} {value : Value}
    (h : (node op span left right).value? = some value) :
    ∃ x y, left.value? = some x ∧ right.value? = some y ∧ op.result? x y = some value := by
  obtain ⟨x, hleft, hrest⟩ := Option.bind_eq_some_iff.1 h
  obtain ⟨y, hright, hresult⟩ := Option.bind_eq_some_iff.1 hrest
  exact ⟨x, y, hleft, hright, hresult⟩

/-- A tree that has a value sets labels exactly if `as` is among its lexemes. -/
theorem names_resolve_eq_nil_iff {σ : Type} (env : Environment σ) (tree : Tree Written)
    (world : σ) {value : Value} (h : (tree.resolve env world).1.value? = some value) :
    (tree.resolve env world).1.names = [] ↔ tree.lexemes.any Lexeme.isNaming = false := by
  induction tree generalizing world value with
  | leaf => exact ⟨fun _ ↦ rfl, fun _ ↦ rfl⟩
  | group _ _ body ih =>
    have hbody := ih world h
    simpa [resolve, names, lexemes, Lexeme.isNaming] using hbody
  | node op span left right ihl ihr =>
    obtain ⟨x, y, hleft, hright, -⟩ := value?_node h
    have hl := ihl world hleft
    have hr := ihr _ hright
    have hname := name?_eq_some hright
    simp only [resolve, names, lexemes, List.append_eq_nil_iff, List.any_append, List.any_cons,
      Bool.or_eq_false_iff, hl, hr, hname]
    by_cases hop : op = .naming
    · simp [hop, Lexeme.isNaming]
    · simp [hop, Lexeme.isNaming]

end Tree

/-! ### Two groups -/

namespace Expression

variable {σ : Type} {env : Environment σ} {limit : Nat}

/-- The value that an expression has in parentheses, given the one that it has by itself: a numeral
is a text by itself and a number in parentheses. -/
def groupValue (lexemes : List Lexeme) (value : Value) : Value :=
  match lexemes with
  | [.operand text _] => ((Operand.ofText text).literal?.bind Double.ofText?).elim value .number
  | _ => value

/-- It is the value of the tree. -/
theorem groupValue_shown (tree : Tree Written) (world : σ) {value : Value}
    (h : (tree.resolve env world).1.value? = some value) :
    groupValue tree.lexemes ((tree.resolve env world).1.shown value) = value := by
  cases tree with
  | leaf operand =>
    obtain rfl := Option.some.inj h
    show ((Operand.ofText operand.text).literal?.bind Double.ofText?).elim _ Value.number = _
    cases hoperand : Operand.ofText operand.text with
    | path => simp [Tree.resolve, Tree.shown, Tree.literal?, Operand.literal?, hoperand]
    | call => simp [Tree.resolve, Tree.shown, Tree.literal?, Operand.literal?, hoperand]
    | literal text =>
      simp only [Tree.resolve, Tree.shown, Tree.literal?, Operand.literal?, hoperand,
        Operand.resolve, Operand.lookUp, Value.ofLiteral, Option.bind_some, Option.map_some,
        Option.getD_some]
      cases Double.ofText? text <;> rfl
  | group => rfl
  | node op span left right =>
    show groupValue (left.lexemes ++ .operator op span :: right.lexemes) value = value
    rcases left.lexemes with _ | ⟨first, _ | ⟨second, rest⟩⟩
    · rfl
    · cases first <;> rfl
    · cases first <;> rfl

/-- An outcome is that of a tree: its value is the one that the expression has in parentheses, and
its labels are set by `as`. -/
theorem exists_tree_of_evaluate {lexemes : List Lexeme} {label : String} {world : σ}
    {outcome : Outcome} (h : (evaluate env limit lexemes label world).answer = .ok outcome) :
    ∃ tree : Tree Written, tree.WellBound ∧ tree.lexemes = lexemes ∧ tree.depth ≤ limit ∧
      (tree.resolve env world).1.value? = some (groupValue lexemes outcome.value) ∧
      outcome.label = (tree.resolve env world).1.names.getLast?.getD label ∧
      ((tree.resolve env world).1.names = [] ↔ lexemes.any Lexeme.isNaming = false) := by
  obtain ⟨tree, hbound, rfl, hdepth⟩ :=
    (isExpression_of_evaluate env limit lexemes label world h).exists_tree
  cases hfaults : (tree.resolve env world).1.faults with
  | nil =>
    obtain ⟨value, trail, hvalue, heq⟩ := evaluate_lexemes env hbound hdepth label world hfaults
    rw [heq] at h
    cases h
    have hgroup := groupValue_shown tree world hvalue
    refine ⟨tree, hbound, rfl, hdepth, ?_, rfl, tree.names_resolve_eq_nil_iff env world hvalue⟩
    rw [hgroup, hvalue]
  | cons position more =>
    rw [evaluate_lexemes_of_faults env hbound hdepth label world hfaults] at h
    cases h

end Expression

namespace Tree

/-- Two groups with an operator between them. -/
def groups {α : Type} (op : Operator) (span a b c d : Span) (left right : Tree α) : Tree α :=
  .node op span (.group a b left) (.group c d right)

variable (op : Operator) (span a b c d : Span)

theorem WellBound.groups {α : Type} {left right : Tree α} (hleft : left.WellBound)
    (hright : right.WellBound) : (groups op span a b c d left right).WellBound :=
  ⟨hleft, hright, Nat.zero_le _, Nat.zero_le _⟩

theorem depth_groups_le {α : Type} {limit : Nat} {left right : Tree α} (hleft : left.depth ≤ limit)
    (hright : right.depth ≤ limit) : (groups op span a b c d left right).depth ≤ limit + 1 :=
  Nat.max_le.2 ⟨Nat.succ_le_succ hleft, Nat.succ_le_succ hright⟩

section

variable {left right : Tree Known} {x y : Value}

theorem value?_groups (hleft : left.value? = some x) (hright : right.value? = some y) :
    (groups op span a b c d left right).value? = op.result? x y := by
  simp only [groups, value?, hleft, hright, Option.bind_eq_bind, Option.bind_some]

/-- Only the operator between the groups can divide by zero. -/
theorem faults_groups (hleft : left.value? = some x) (hright : right.value? = some y)
    (h : op.DividesByZero y) : (groups op span a b c d left right).faults = [span.start] := by
  obtain ⟨hinner, hlevel⟩ := List.append_eq_nil_iff.1
    ((value?_isSome_iff left).1 (Option.isSome_of_eq_some hleft))
  obtain ⟨hinner', hlevel'⟩ := List.append_eq_nil_iff.1
    ((value?_isSome_iff right).1 (Option.isSome_of_eq_some hright))
  simp [groups, faults, innerFaults, levelFaults, fault, value?, hinner, hlevel, hinner', hlevel',
    hright, h]

/-- A group is no literal, so `as` takes the text of its value. -/
theorem getLast?_names_groups (hright : right.value? = some y) (label : String) :
    (groups op span a b c d left right).names.getLast?.getD label =
      if op = .naming then y.asText else (left.names ++ right.names).getLast?.getD label := by
  have hname : (group c d right).name? = some y.asText := name?_eq_some hright
  rw [groups, names, hname]
  split
  · rw [Option.toList_some, List.getLast?_concat, Option.getD_some]
  · rw [List.append_nil]
    rfl

end

end Tree

namespace Expression

variable {σ : Type} {env : Environment σ} {limit : Nat}

/-- Two groups with an operator between them amount to the operator between their values. -/
theorem evaluate_lexemes_groups {left right : Tree Written} (hleft : left.WellBound)
    (hright : right.WellBound) (hdepth : left.depth ≤ limit) (hdepth' : right.depth ≤ limit)
    {known known' : Tree Known} {x y : Value} (hx : known.value? = some x)
    (hy : known'.value? = some y) (hknown : ∀ world, (left.resolve env world).1.Agrees known)
    (hknown' : ∀ world, (right.resolve env world).1.Agrees known') (op : Operator)
    (span a b c d : Span) (label : String) (world : σ) :
    (evaluate env (limit + 1) (Tree.groups op span a b c d left right).lexemes label world).answer =
      match op.apply x y none label with
      | .ok (value, _) => .ok ⟨value, if op = .naming then y.asText else
          (known.names ++ known'.names).getLast?.getD label⟩
      | .error _ => .error (.failed (.divisionByZero (some span.start))) := by
  have hbound := hleft.groups op span a b c d hright
  have hlimit := Tree.depth_groups_le op span a b c d hdepth hdepth'
  have hfirst := hknown world
  have hsecond := hknown' (left.resolve env world).2
  have hvalue := Tree.value?_groups op span a b c d (hfirst.value.trans hx) (hsecond.value.trans hy)
  cases hresult : op.result? x y with
  | some value =>
    have hfaults := (Tree.value?_isSome_iff _).1 (Option.isSome_of_eq_some (hvalue.trans hresult))
    obtain ⟨value', trail, hvalue', heq⟩ := evaluate_lexemes env hbound hlimit label world hfaults
    obtain rfl : value = value' := Option.some.inj ((hvalue.trans hresult).symm.trans hvalue')
    have hlabel : ((Tree.groups op span a b c d left right).resolve env
        world).1.names.getLast?.getD label =
          if op = .naming then y.asText else (known.names ++ known'.names).getLast?.getD label := by
      rw [← hfirst.names, ← hsecond.names]
      exact Tree.getLast?_names_groups op span a b c d (hsecond.value.trans hy) label
    rw [heq, Operator.apply_of_result? _ _ hresult, ← hlabel]
    rfl
  | none =>
    have hzero := Operator.result?_eq_none_iff.1 hresult
    have hfaults := Tree.faults_groups op span a b c d (hfirst.value.trans hx)
      (hsecond.value.trans hy) hzero
    rw [evaluate_lexemes_of_faults env hbound hlimit label world hfaults,
      Operator.apply_of_dividesByZero _ _ hzero]

end Expression

/-! ### Sources -/

namespace Operator

/-- The spellings of operators. -/
def symbols : List String :=
  ["===", "!==", "==", "!=", "<=", "<>", ">=", "<", ">", "&&", "||", "*", "/", "+", "-", "as"]

theorem symbols_eq : symbols = all.map symbol :=
  rfl

theorem symbol_eq_as_iff {op : Operator} : op.symbol = "as" ↔ op = .naming :=
  ⟨fun h ↦ symbol_injective (b := .naming) h, fun h ↦ congrArg symbol h⟩

/-- The spelling of an operator as it stands between two parentheses: a word needs blanks on both
sides. -/
def spaced (symbol : String) : String :=
  if symbol = "as" then " as " else symbol

end Operator

namespace Lexeme

/-- Between parentheses an operator is one lexeme. -/
theorem exists_assemble_spaced (op : Operator) (offset : Nat) :
    ∃ span, (op ≠ .naming → span.start = offset) ∧
      assemble offset false none (Token.scan (Operator.spaced op.symbol).toList) =
        [.operator op span] := by
  by_cases hop : op = .naming
  · subst hop
    have hscan : Token.scan [' ', 'a', 's', ' '] =
        [.blank [' '], .text ['a', 's'], .blank [' ']] := by
      have hlast : Token.scan [' '] = [.blank [' ']] :=
        (Token.scan_cons rfl rfl).trans (congrArg _ Token.scan_nil)
      have hword : Token.scan ['a', 's', ' '] = [.text ['a', 's'], .blank [' ']] :=
        (Token.scan_cons rfl rfl).trans (congrArg _ hlast)
      exact (Token.scan_cons rfl rfl).trans (congrArg _ hword)
    show ∃ span, _ ∧ assemble offset false none (Token.scan [' ', 'a', 's', ' ']) = _
    rw [hscan]
    exact ⟨_, fun h ↦ absurd rfl h, rfl⟩
  · rw [Operator.spaced, if_neg (mt Operator.symbol_eq_as_iff.1 hop), Token.scan_symbol op hop]
    exact ⟨_, fun _ ↦ rfl, rfl⟩

/-- The lexemes of two sources in parentheses with an operator between them. -/
theorem scan_groups (op : Operator) (e₁ e₂ : String) :
    ∃ distance span a b c d, (op ≠ .naming → span.start = e₁.utf8ByteSize + 2) ∧
      scan ("(" ++ e₁ ++ ")" ++ Operator.spaced op.symbol ++ "(" ++ e₂ ++ ")") =
        .opening a :: ((scan e₁).map (·.shift 1) ++ .closing b :: .operator op span ::
          .opening c :: ((scan e₂).map (·.shift distance) ++ [.closing d])) := by
  have hsource : ("(" ++ e₁ ++ ")" ++ Operator.spaced op.symbol ++ "(" ++ e₂ ++ ")").toList =
      [] ++ Delimiter.opening.char :: (e₁.toList ++ Delimiter.closing.char ::
        ((Operator.spaced op.symbol).toList ++ Delimiter.opening.char ::
          (e₂.toList ++ Delimiter.closing.char :: []))) := by
    simp [Delimiter.char]
  obtain ⟨span, hspan, hop⟩ := exists_assemble_spaced op (1 + e₁.utf8ByteSize + 1)
  rw [scan, hsource, assemble_scan_append, assemble_scan_append, assemble_scan_append,
    assemble_scan_append]
  simp only [Text.byteLength_nil, Text.byteLength_toList, Nat.zero_add, assemble_scan_nil, hop]
  rw [assemble_eq_map_shift 1,
    assemble_eq_map_shift
      (1 + e₁.utf8ByteSize + 1 + (Operator.spaced op.symbol).utf8ByteSize + 1)]
  exact ⟨_, span, _, _, _, _, fun h ↦ (hspan h).trans (by omega), rfl⟩

end Lexeme

/-- The last label of two lists is that of the second list that has one. -/
theorem getLast?_getD_append (names names' : List String) (label first second : String) :
    (names ++ names').getLast?.getD label =
      if names' ≠ [] then names'.getLast?.getD second
      else if names ≠ [] then names.getLast?.getD first else label := by
  rcases names'.eq_nil_or_concat with rfl | ⟨_, _, rfl⟩
  · rcases names.eq_nil_or_concat with rfl | ⟨_, _, rfl⟩
    · rfl
    · simp
  · simp

namespace Evaluator

variable {σ : Type} {env : Environment σ} {limit : Nat} {e₁ e₂ : String} {world₁ world₂ : σ}
  {first second : Outcome}

/-- Two sources that have an outcome by themselves amount, in parentheses with the spelling of an
operator between them and one level deeper, to what the spelling stands for when it is applied to
their values, or to its division by zero. The label is the text of the second value for `as`; else
it is that of the last source with an `as` of its own, or the whole text if there is none. -/
theorem evaluate_groups (hconst : env.IsConstant)
    (hfirst : (((ofSource e₁).limitedTo limit).evaluate env world₁).1.answer = .ok first)
    (hsecond : (((ofSource e₂).limitedTo limit).evaluate env world₂).1.answer = .ok second)
    {symbol : String} (hsymbol : symbol ∈ Operator.symbols) (world : σ) :
    let source := "(" ++ e₁ ++ ")" ++ Operator.spaced symbol ++ "(" ++ e₂ ++ ")"
    let x := Expression.groupValue (Lexeme.scan e₁) first.value
    let y := Expression.groupValue (Lexeme.scan e₂) second.value
    (∀ error, Operator.applySymbol symbol x y source = .error error →
        error = .divisionByZero none) ∧
      (((ofSource source).limitedTo (limit + 1)).evaluate env world).1.answer =
        match Operator.applySymbol symbol x y source with
        | .ok (value, _) => .ok
          { value
            label :=
              if symbol = "as" then y.asText
              else if (Lexeme.scan e₂).any Lexeme.isNaming then second.label
              else if (Lexeme.scan e₁).any Lexeme.isNaming then first.label
              else source }
        | .error _ => .error (.failed (.divisionByZero (some (e₁.utf8ByteSize + 2)))) := by
  intro source x y
  obtain ⟨op, -, rfl⟩ := List.mem_map.1 (Operator.symbols_eq ▸ hsymbol)
  simp only [Operator.applySymbol_symbol, Operator.symbol_eq_as_iff]
  refine ⟨fun error ↦ Operator.eq_divisionByZero_of_apply, ?_⟩
  have hreport (source : String) (limit : Nat) (world : σ) :
      (((ofSource source).limitedTo limit).evaluate env world).1 =
        Expression.evaluate env limit (Lexeme.scan source) source world :=
    evaluate_fst ..
  rw [hreport] at hfirst hsecond ⊢
  obtain ⟨left, hleft, hlexemes, hdepth, hx, hlabel, hnaming⟩ :=
    Expression.exists_tree_of_evaluate hfirst
  obtain ⟨right, hright, hlexemes', hdepth', hy, hlabel', hnaming'⟩ :=
    Expression.exists_tree_of_evaluate hsecond
  obtain ⟨distance, span, a, b, c, d, hspan, hscan⟩ := Lexeme.scan_groups op e₁ e₂
  have hgroups : Lexeme.scan source =
      (Tree.groups op span a b c d (left.shift 1) (right.shift distance)).lexemes := by
    rw [hscan, ← hlexemes, ← hlexemes', ← Tree.lexemes_shift, ← Tree.lexemes_shift]
    simp [Tree.groups, Tree.lexemes]
  have heval := Expression.evaluate_lexemes_groups (hleft.shift 1) (hright.shift distance)
    ((left.depth_shift 1).trans_le hdepth) ((right.depth_shift distance).trans_le hdepth') hx hy
    (fun world ↦ left.agrees_shift hconst 1 world world₁)
    (fun world ↦ right.agrees_shift hconst distance world world₂) op span a b c d source world
  have hlast := getLast?_getD_append (left.resolve env world₁).1.names
    (right.resolve env world₂).1.names source e₁ e₂
  simp only [← hlabel, ← hlabel', ne_eq, hnaming, hnaming', Bool.not_eq_false] at hlast
  rw [hgroups, heval, hlast]
  by_cases hop : op = .naming
  · subst hop
    rfl
  · rw [hspan hop]

/-- By itself `6` is a text; in `(6) && (b as x)` it is a number, and the label is that of the
second source. -/
theorem evaluate_groups_of_label :
    let env : Environment Unit := ⟨fun _ ↦ none, fun _ ↦ none⟩
    (((ofSource "6").limitedTo 0).evaluate env ()).1.answer = .ok ⟨.string "6", "6"⟩ ∧
      (((ofSource "b as x").limitedTo 0).evaluate env ()).1.answer = .ok ⟨.string "b", "x"⟩ ∧
      (((ofSource "(6)&&(b as x)").limitedTo 1).evaluate env ()).1.answer =
        .ok ⟨.bool true, "x"⟩ := by
  intro env
  have hscan : Lexeme.scan "6" = [.operand "6" ⟨0, 1⟩] := by
    have htokens : Token.scan ['6'] = [.text ['6']] :=
      (Token.scan_cons rfl rfl).trans (congrArg _ Token.scan_nil)
    show Lexeme.assemble 0 false none (Token.scan ['6']) = _
    rw [htokens]
    rfl
  have hscan' : Lexeme.scan "b as x" =
      [.operand "b" ⟨0, 1⟩, .operator .naming ⟨2, 4⟩, .operand "x" ⟨5, 6⟩] := by
    have htokens : Token.scan "b as x".toList =
        [.text ['b'], .blank [' '], .text ['a', 's'], .blank [' '], .text ['x']] := by
      refine (Token.scan_cons rfl rfl).trans (congrArg _ ?_)
      refine (Token.scan_cons rfl rfl).trans (congrArg _ ?_)
      refine (Token.scan_cons rfl rfl).trans (congrArg _ ?_)
      refine (Token.scan_cons rfl rfl).trans (congrArg _ ?_)
      exact (Token.scan_cons rfl rfl).trans (congrArg _ Token.scan_nil)
    rw [Lexeme.scan, htokens]
    rfl
  have hfirst : (((ofSource "6").limitedTo 0).evaluate env ()).1.answer =
      .ok ⟨.string "6", "6"⟩ := by
    rw [evaluate_fst]
    show (Expression.evaluate env 0 (Lexeme.scan "6") "6" ()).answer = _
    rw [hscan, Expression.evaluate, Expression.value_eq_pass]
    rfl
  have hsecond : (((ofSource "b as x").limitedTo 0).evaluate env ()).1.answer =
      .ok ⟨.string "b", "x"⟩ := by
    rw [evaluate_fst]
    show (Expression.evaluate env 0 (Lexeme.scan "b as x") "b as x" ()).answer = _
    rw [hscan', Expression.evaluate, Expression.value_eq_pass]
    rfl
  have hconst : env.IsConstant := by
    intro name callback hcallback
    cases hcallback
  have hnumber : (Expression.groupValue [.operand "6" ⟨0, 1⟩] (.string "6")).asTruth = true := by
    decide +kernel
  obtain ⟨-, hgroups⟩ :=
    evaluate_groups hconst hfirst hsecond (by decide : "&&" ∈ Operator.symbols) ()
  rw [hscan, hscan'] at hgroups
  have hanswer : (((ofSource "(6)&&(b as x)").limitedTo 1).evaluate env ()).1.answer =
      .ok ⟨.bool ((Expression.groupValue [.operand "6" ⟨0, 1⟩] (.string "6")).asTruth && true),
        "x"⟩ := hgroups
  rw [hnumber] at hanswer
  exact ⟨hfirst, hsecond, hanswer⟩

end Evaluator

end Qualifier
