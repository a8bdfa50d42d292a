import Qualifier.Expression
import Qualifier.Proofs.Run

/-!
# Matching parentheses

Which lexemes a call of `Expression.group` consumes. A call that is to read a level in parentheses
consumes balanced lexemes and the closing parenthesis behind them, and a call that is to read the
outermost level consumes everything (`Expression.consumes_of_group`). Balanced lexemes never have
closed more parentheses than they have opened (`Expression.IsBalanced.closings_le`), so that closing
parenthesis is the first that is one too many.

`group` hands back the lexemes that are left. `Expression.groupFrom` says the same with indices into
one list, and `Expression.groupAt` is a recursion on an index, which jumps to where a nested call
has ended, so that only the number of steps it is given bounds it. The main statement,
`Expression.group_consumes`, is about both: where a call ends, and that one step for each lexeme
that is left and one for the end are enough (`Expression.groupAt_eq_group`).
-/

namespace Qualifier

/-- Whether a lexeme is an opening parenthesis. -/
def Lexeme.isOpening : Lexeme → Bool
  | .opening _ => true
  | _ => false

/-- Whether a lexeme is a closing parenthesis. -/
def Lexeme.isClosing : Lexeme → Bool
  | .closing _ => true
  | _ => false

namespace Expression

/-! ### Balanced lexemes -/

/-- How many opening parentheses there are. -/
def openings (lexemes : List Lexeme) : Nat :=
  lexemes.countP Lexeme.isOpening

/-- How many closing parentheses there are. -/
def closings (lexemes : List Lexeme) : Nat :=
  lexemes.countP Lexeme.isClosing

theorem openings_append (first second : List Lexeme) :
    openings (first ++ second) = openings first + openings second :=
  List.countP_append

theorem closings_append (first second : List Lexeme) :
    closings (first ++ second) = closings first + closings second :=
  List.countP_append

theorem openings_cons_opening (span : Span) (rest : List Lexeme) :
    openings (.opening span :: rest) = openings rest + 1 :=
  List.countP_cons_of_pos rfl

theorem closings_cons_opening (span : Span) (rest : List Lexeme) :
    closings (.opening span :: rest) = closings rest :=
  List.countP_cons_of_neg Bool.false_ne_true

theorem openings_append_closing (body : List Lexeme) (span : Span) :
    openings (body ++ [.closing span]) = openings body :=
  openings_append body _

theorem closings_append_closing (body : List Lexeme) (span : Span) :
    closings (body ++ [.closing span]) = closings body + 1 :=
  closings_append body _

/-- The lexemes in which every parenthesis is matched. -/
inductive IsBalanced : List Lexeme → Prop
  /-- No lexemes are balanced. -/
  | nil : IsBalanced []
  /-- An operand is balanced. -/
  | operand (text : String) (span : Span) : IsBalanced [.operand text span]
  /-- An operator is balanced. -/
  | operator (op : Operator) (span : Span) : IsBalanced [.operator op span]
  /-- What is balanced is so in parentheses as well. -/
  | group {body : List Lexeme} (opening closing : Span) (h : IsBalanced body) :
    IsBalanced (.opening opening :: (body ++ [.closing closing]))
  /-- Balanced lexemes one after the other are balanced. -/
  | append {first second : List Lexeme} (h : IsBalanced first) (h' : IsBalanced second) :
    IsBalanced (first ++ second)

/-- As many parentheses are closed as are opened. -/
theorem IsBalanced.closings_eq {lexemes : List Lexeme} (h : IsBalanced lexemes) :
    closings lexemes = openings lexemes := by
  induction h with
  | nil => rfl
  | operand => rfl
  | operator => rfl
  | group opening closing _ ih =>
    rw [closings_cons_opening, openings_cons_opening, closings_append_closing,
      openings_append_closing, ih]
  | append _ _ ih ih' => rw [closings_append, openings_append, ih, ih']

/-- Up to any place, no more parentheses have been closed than opened. -/
theorem IsBalanced.closings_le {lexemes : List Lexeme} (h : IsBalanced lexemes) (k : Nat) :
    closings (lexemes.take k) ≤ openings (lexemes.take k) := by
  induction h generalizing k with
  | nil =>
    rw [List.take_nil]
    exact Nat.le_refl 0
  | operand => cases k <;> simp [closings, Lexeme.isClosing]
  | operator => cases k <;> simp [closings, Lexeme.isClosing]
  | @group body opening closing _ ih =>
    cases k with
    | zero => exact Nat.le_refl 0
    | succ k =>
      have hlast : closings (List.take (k - body.length) [.closing closing]) ≤ 1 :=
        Nat.le_trans List.countP_le_length (List.length_take_le' _ _)
      rw [List.take_succ_cons, closings_cons_opening, openings_cons_opening, List.take_append,
        closings_append, openings_append]
      have := ih k
      omega
  | append _ _ ih ih' =>
    rw [List.take_append, closings_append, openings_append]
    exact Nat.add_le_add (ih k) (ih' _)

/-! ### What a call consumes -/

/-- What is left of the lexemes when a call has read the level that a parenthesis at `start` opened,
or the outermost level. -/
inductive Consumes : (start : Option Nat) → (lexemes rest : List Lexeme) → Prop
  /-- The outermost level is all that there is. -/
  | outermost {lexemes : List Lexeme} (h : IsBalanced lexemes) : Consumes none lexemes []
  /-- A level in parentheses goes up to the closing parenthesis that matches no other. -/
  | level {body : List Lexeme} (position : Nat) (closing : Span) (rest : List Lexeme)
    (h : IsBalanced body) : Consumes (some position) (body ++ .closing closing :: rest) rest

/-- Behind balanced lexemes a call is as far in its level as before them. -/
theorem Consumes.append {start : Option Nat} {first lexemes rest : List Lexeme}
    (hfirst : IsBalanced first) (h : Consumes start lexemes rest) :
    Consumes start (first ++ lexemes) rest := by
  cases h with
  | outermost h => exact .outermost (hfirst.append h)
  | level position closing _ h =>
    rw [← List.append_assoc]
    exact .level position closing rest (hfirst.append h)

/-- A level in parentheses is balanced up to its closing parenthesis. -/
theorem Consumes.exists_body {position : Nat} {lexemes rest : List Lexeme}
    (h : Consumes (some position) lexemes rest) :
    ∃ body closing, lexemes = body ++ .closing closing :: rest ∧ IsBalanced body := by
  cases h with
  | level _ closing _ hbody => exact ⟨_, closing, rfl, hbody⟩

/-- The outermost level is balanced, and nothing is left behind it. -/
theorem Consumes.eq_nil_and_isBalanced {lexemes rest : List Lexeme}
    (h : Consumes none lexemes rest) : rest = [] ∧ IsBalanced lexemes := by
  cases h with
  | outermost hbalanced => exact ⟨rfl, hbalanced⟩

/-- Behind the group that an opening parenthesis opens, a call is as far in its level as before. -/
theorem Consumes.behind_group {position : Nat} {start : Option Nat} {tail after rest : List Lexeme}
    (opening : Span) (hgroup : Consumes (some position) tail after)
    (h : Consumes start after rest) : Consumes start (.opening opening :: tail) rest := by
  obtain ⟨body, closing, rfl, hbody⟩ := hgroup.exists_body
  have hsplit : .opening opening :: (body ++ .closing closing :: after) =
      (.opening opening :: (body ++ [.closing closing])) ++ after := by
    rw [List.cons_append, List.append_assoc, List.singleton_append]
  rw [hsplit]
  exact h.append (.group opening closing hbody)

/-- What a call leaves is the end of what it was given. -/
theorem Consumes.isSuffix {start : Option Nat} {lexemes rest : List Lexeme}
    (h : Consumes start lexemes rest) : rest <:+ lexemes := by
  cases h with
  | outermost => exact List.nil_suffix
  | @level body position closing _ _ => exact ⟨body ++ [.closing closing], by simp⟩

variable {σ : Type} {env : Environment σ} {limit : Nat}

/-- A call that succeeds consumes what it is to read and nothing else. -/
theorem consumes_of_group {n depth : Nat} {start : Option Nat} {done : Queue}
    {lexemes : List Lexeme} {bound : lexemes.length ≤ n} {progress final : Progress σ}
    {value : Value} {rest : { rest : List Lexeme // rest.length ≤ n }}
    (h : (group env limit n depth start done lexemes bound).run progress =
      (.ok (value, rest), final)) : Consumes start lexemes rest.val := by
  induction hlength : lexemes.length using Nat.strongRecOn
    generalizing n depth start done lexemes progress value final with
  | ind k ih =>
    cases lexemes with
    | nil =>
      rw [group.eq_def] at h
      cases start with
      | some position => cases h
      | none =>
        obtain ⟨_, _, _, hreturn⟩ := run_bind_eq_ok h
        cases hreturn
        exact .outermost .nil
    | cons lexeme tail =>
      have htail : tail.length < k := by simp [← hlength]
      rw [group.eq_def] at h
      cases lexeme with
      | operand text span =>
        obtain ⟨_, _, _, hcall⟩ := run_bind_eq_ok h
        exact (ih _ htail hcall rfl).append (.operand text span)
      | operator op span => exact (ih _ htail h rfl).append (.operator op span)
      | opening span =>
        simp only at h
        split at h
        · cases h
        · -- the nested call consumes its level, and the loop goes on behind it
          obtain ⟨⟨_, after⟩, _, hnested, hcall⟩ := run_bind_eq_ok h
          have hafter : after.val.length < k := Nat.lt_of_le_of_lt after.property htail
          exact .behind_group span (ih _ htail hnested rfl) (ih _ hafter hcall rfl)
      | closing span =>
        cases start with
        | none => cases h
        | some position =>
          obtain ⟨_, _, _, hreturn⟩ := run_bind_eq_ok h
          cases hreturn
          exact .level position span tail .nil

/-! ### Indices -/

/-- Reads a level from the index `first` on and returns its value and the index of the first lexeme
behind it. -/
def groupFrom {σ : Type} (env : Environment σ) (limit : Nat) (lexemes : List Lexeme) (depth : Nat)
    (start : Option Nat) (first : Nat) : Evaluation σ (Value × Nat) := do
  let (value, rest) ←
    group env limit _ depth start [] (lexemes.drop first) (Nat.le_refl _)
  return (value, lexemes.length - rest.val.length)

/-- The recursion on an index into the lexemes, for a number of steps; `exhausted` takes the place
of any more. A nested call returns the index from which its caller goes on. -/
def groupAt {σ : Type} (env : Environment σ) (limit : Nat) (lexemes : List Lexeme)
    (exhausted : Evaluation σ (Value × Nat)) (steps depth : Nat) (start : Option Nat)
    (done : Queue) (index : Nat) : Evaluation σ (Value × Nat) :=
  match steps with
  | 0 => exhausted
  | steps + 1 =>
    match lexemes[index]? with
    | none =>
      match start with
      | some position => throw (.malformed (.unclosedOpening position))
      | none => do
        let value ← (conclude done.reverse).within
        return (value, index)
    | some (.operand text span) => do
      let operand := Operand.ofText text
      let value ← modifyGet (operand.lookUp env)
      let entry := Entry.operand value operand.literal? span.start
      groupAt env limit lexemes exhausted steps depth start (entry :: done) (index + 1)
    | some (.operator op span) =>
      groupAt env limit lexemes exhausted steps depth start (.operator op span.start :: done)
        (index + 1)
    | some (.opening span) =>
      if limit ≤ depth then throw (.malformed (.nestingTooDeep limit span.start))
      else do
        let (value, next) ←
          groupAt env limit lexemes exhausted steps (depth + 1) (some span.start) [] (index + 1)
        let entry := Entry.operand value none span.start
        groupAt env limit lexemes exhausted steps depth start (entry :: done) next
    | some (.closing span) =>
      match start with
      | none => throw (.malformed (.unmatchedClosing span.start))
      | some position => do
        let value ← (finish done.reverse position).within
        return (value, index + 1)

/-- The lexeme at the index of what is left is the first of what is left. -/
theorem getElem?_of_isSuffix {left lexemes : List Lexeme} (h : left <:+ lexemes) :
    lexemes[lexemes.length - left.length]? = left.head? := by
  obtain ⟨read, rfl⟩ := h
  rw [List.length_append, Nat.add_sub_cancel, List.getElem?_append_right (Nat.le_refl _),
    Nat.sub_self, List.head?_eq_getElem?]

/-- With a step for each lexeme that is left and one for the end, the recursion on an index is that
on the lexemes that are left. -/
theorem groupAt_eq_group (exhausted : Evaluation σ (Value × Nat)) {lexemes left : List Lexeme}
    (hleft : left <:+ lexemes) {steps : Nat} (hsteps : left.length < steps) (n depth : Nat)
    (start : Option Nat) (done : Queue) (bound : left.length ≤ n) :
    groupAt env limit lexemes exhausted steps depth start done (lexemes.length - left.length) =
      (do
        let (value, rest) ← group env limit n depth start done left bound
        return (value, lexemes.length - rest.val.length)) := by
  induction steps generalizing left n depth start done with
  | zero => exact absurd hsteps (Nat.not_lt_zero _)
  | succ steps ih =>
    have hhead := getElem?_of_isSuffix hleft
    cases left with
    | nil =>
      rw [groupAt.eq_def, group.eq_def]
      simp only [hhead, List.head?_nil]
      cases start with
      | some position => rfl
      | none => simp only [bind_assoc, pure_bind]
    | cons lexeme tail =>
      have htail : tail <:+ lexemes := (List.suffix_cons lexeme tail).trans hleft
      have hnext : lexemes.length - (lexeme :: tail).length + 1 = lexemes.length - tail.length := by
        have := hleft.length_le
        rw [List.length_cons] at this ⊢
        omega
      have hshorter : tail.length < steps := Nat.lt_of_succ_lt_succ hsteps
      rw [groupAt.eq_def, group.eq_def]
      simp only [hhead, hnext, List.head?_cons]
      cases lexeme with
      | operand text span =>
        rw [bind_assoc]
        exact bind_congr fun _ ↦ ih htail hshorter n depth start _ _
      | operator op span => exact ih htail hshorter n depth start _ _
      | opening span =>
        simp only
        split
        · rfl
        · -- the index that the nested call returns is that of what it leaves
          rw [ih htail hshorter tail.length _ _ _ (Nat.le_refl _)]
          simp only [bind_assoc, pure_bind]
          refine bind_congr_of_run fun _ returned _ hnested ↦ ?_
          obtain ⟨_, after⟩ := returned
          have hafter : after.val <:+ tail := (consumes_of_group hnested).isSuffix
          exact ih (hafter.trans htail) (Nat.lt_of_le_of_lt after.property hshorter) n _ _ _ _
      | closing span =>
        cases start with
        | none => rfl
        | some position => simp only [bind_assoc, pure_bind]

/-! ### Groups -/

/-- The lexemes from the index `first` up to the index `next` are those of a group, its opening
parenthesis aside. -/
structure IsGroup (lexemes : List Lexeme) (first next : Nat) : Prop where
  /-- A group is not empty. -/
  lt : first < next
  /-- It ends with the lexemes or before. -/
  le : next ≤ lexemes.length
  /-- Its last lexeme is a closing parenthesis. -/
  closing : ∃ span, lexemes[next - 1]? = some (.closing span)
  /-- At its last lexeme, more parentheses have been closed than opened. -/
  outnumbered : openings (lexemes.extract first next) < closings (lexemes.extract first next)
  /-- At an earlier lexeme, no more have been closed than opened. -/
  earliest (index : Nat) (hfirst : first ≤ index) (hlast : index < next - 1) :
    closings (lexemes.extract first (index + 1)) ≤ openings (lexemes.extract first (index + 1))
  /-- All but the last are balanced. -/
  balanced : IsBalanced (lexemes.extract first (next - 1))

/-- What a call for a level in parentheses consumes is a group. -/
theorem Consumes.isGroup {lexemes rest : List Lexeme} {first position : Nat}
    (h : Consumes (some position) (lexemes.drop first) rest) :
    IsGroup lexemes first (lexemes.length - rest.length) := by
  obtain ⟨body, closing, hdrop, hbody⟩ := h.exists_body
  have hlength : lexemes.length - first = body.length + (rest.length + 1) := by
    rw [← List.length_drop, hdrop, List.length_append, List.length_cons]
  have hnext : lexemes.length - rest.length = first + body.length + 1 := by omega
  have hextract {k : Nat} (hk : k ≤ body.length) :
      lexemes.extract first (first + k) = body.take k := by
    rw [List.extract_eq_take_drop, hdrop, Nat.add_sub_cancel_left,
      List.take_append_of_le_length hk]
  have hwhole : lexemes.extract first (first + body.length + 1) = body ++ [.closing closing] := by
    rw [List.extract_eq_take_drop, hdrop, Nat.add_assoc, Nat.add_sub_cancel_left,
      List.take_length_add_append]
    rfl
  rw [hnext]
  refine ⟨by omega, by omega, ⟨closing, ?_⟩, ?_, fun index hfirst hlast ↦ ?_, ?_⟩
  · rw [Nat.add_sub_cancel, ← List.getElem?_drop, hdrop,
      List.getElem?_append_right (Nat.le_refl _), Nat.sub_self]
    rfl
  · rw [hwhole, openings_append_closing, closings_append_closing, hbody.closings_eq]
    exact Nat.lt_succ_self _
  · obtain ⟨k, rfl⟩ := Nat.exists_eq_add_of_le hfirst
    rw [Nat.add_assoc, hextract (by omega)]
    exact hbody.closings_le _
  · rw [Nat.add_sub_cancel, hextract (Nat.le_refl _), List.take_length]
    exact hbody

/-- A whole expression is read from its first lexeme on. -/
theorem value_eq_groupFrom (env : Environment σ) (limit : Nat) (lexemes : List Lexeme) :
    value env limit lexemes =
      (do
        let (value, _) ← groupFrom env limit lexemes 0 none 0
        return value) := by
  rw [value, groupFrom]
  simp only [bind_assoc, pure_bind]
  rfl

/-- A call that reads a level in parentheses from an index on and succeeds returns the index where
its group ends, which is behind the first closing parenthesis that is one too many; the lexemes up
to that parenthesis are balanced. A call that reads the outermost level and succeeds returns the
number of the lexemes. The recursion on an index ends, be the lexemes balanced or not: with a step
for each of them and one more, it is never exhausted. -/
theorem group_consumes (env : Environment σ) (limit depth : Nat) {lexemes : List Lexeme}
    {first : Nat} (hfirst : first ≤ lexemes.length) :
    (∀ position progress value next final,
      (groupFrom env limit lexemes depth (some position) first).run progress =
        (.ok (value, next), final) → IsGroup lexemes first next) ∧
    (∀ progress value next final,
      (groupFrom env limit lexemes 0 none 0).run progress = (.ok (value, next), final) →
        next = lexemes.length ∧ IsBalanced lexemes) ∧
    ∀ exhausted start steps, lexemes.length - first < steps →
      groupAt env limit lexemes exhausted steps depth start [] first =
        groupFrom env limit lexemes depth start first := by
  refine ⟨fun position progress value next final h ↦ ?_, fun progress value next final h ↦ ?_,
    fun exhausted start steps hsteps ↦ ?_⟩
  · obtain ⟨⟨_, rest⟩, _, hgroup, hreturn⟩ := run_bind_eq_ok h
    cases hreturn
    exact (consumes_of_group hgroup).isGroup
  · obtain ⟨⟨_, rest⟩, _, hgroup, hreturn⟩ := run_bind_eq_ok h
    cases hreturn
    obtain ⟨hrest, hbalanced⟩ := (consumes_of_group hgroup).eq_nil_and_isBalanced
    rw [hrest]
    exact ⟨rfl, hbalanced⟩
  · have hindex : lexemes.length - (lexemes.drop first).length = first := by
      rw [List.length_drop]
      omega
    have hleft : (lexemes.drop first).length < steps := by rwa [List.length_drop]
    have heq : groupAt env limit lexemes exhausted steps depth start []
        (lexemes.length - (lexemes.drop first).length) =
          groupFrom env limit lexemes depth start first :=
      groupAt_eq_group exhausted (List.drop_suffix first lexemes) hleft _ depth start [] _
    rwa [hindex] at heq

/-- In `((a) && b)` the group of the first parenthesis consists of the other six lexemes, and all
seven are balanced. -/
theorem group_consumes_nested :
    let lexemes : List Lexeme := [.opening ⟨0, 1⟩, .opening ⟨1, 2⟩, .operand "a" ⟨2, 3⟩,
      .closing ⟨3, 4⟩, .operator (.logic .and) ⟨5, 7⟩, .operand "b" ⟨8, 9⟩, .closing ⟨9, 10⟩]
    let env : Environment Unit := ⟨fun _ ↦ none, fun _ ↦ none⟩
    let start : Progress Unit := ⟨⟨"", #[]⟩, ()⟩
    (∃ value final, (groupFrom env 2 lexemes 1 (some 0) 1).run start =
      (.ok (value, 7), final)) ∧ IsGroup lexemes 1 7 ∧
    (∃ value final, (groupFrom env 2 lexemes 0 none 0).run start =
      (.ok (value, 7), final)) ∧ IsBalanced lexemes := by
  intro lexemes env start
  let exhausted : Evaluation Unit (Value × Nat) := throw (.malformed (.emptyExpression 0))
  have hfirst : 1 ≤ lexemes.length := by decide
  obtain ⟨hgroup, hwhole, hends⟩ := group_consumes env 2 1 hfirst
  obtain ⟨-, -, hends'⟩ := group_consumes env 2 0 (Nat.zero_le lexemes.length)
  have hlevel : ∃ value final, (groupFrom env 2 lexemes 1 (some 0) 1).run start =
      (.ok (value, 7), final) := by
    rw [← hends exhausted _ 7 (by decide)]
    exact ⟨_, _, rfl⟩
  have houtermost : ∃ value final, (groupFrom env 2 lexemes 0 none 0).run start =
      (.ok (value, 7), final) := by
    rw [← hends' exhausted _ 8 (by decide)]
    exact ⟨_, _, rfl⟩
  refine ⟨hlevel, ?_, houtermost, ?_⟩
  · obtain ⟨value, final, hrun⟩ := hlevel
    exact hgroup 0 start value 7 final hrun
  · obtain ⟨value, final, hrun⟩ := houtermost
    exact (hwhole start value 7 final hrun).2

end Expression

end Qualifier
