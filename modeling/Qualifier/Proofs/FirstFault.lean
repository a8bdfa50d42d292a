import Mathlib
import Qualifier.Evaluator
import Qualifier.Proofs.Acceptance
import Qualifier.Proofs.Nesting
import Qualifier.Proofs.Verdict

/-!
# Which fault is reported

A text that is no expression has a fault in its shape, which the verdict finds at one of the lexemes
or at the end (`Expression.FaultBetween`). An evaluation reports this fault, unless a group that is
closed before divides by zero: groups are evaluated when they are closed, and the first error ends
the evaluation. The main statement is `Evaluator.evaluate_malformed`, which tells the two cases
apart.

The verdict decides the grammar (`Expression.verdict_eq_ok_iff`), so there is a fault to report. The
other half is about groups. A group that the pass has got through has a value
(`Expression.not_divides_of_read`), as the pass does with its lexemes what reading its tree does;
and a group at whose end the pass fails with a division by zero is an expression, whose tree has
that division as its first fault (`Expression.divides_of_step`).
-/

namespace Qualifier

/-! ### The verdict and the grammar -/

namespace Stack

variable {limit : Nat} {stack stack' : Stack} {read lexemes : List Lexeme}

/-- Each lexeme that the verdict passes keeps the levels gathered from what has been read. -/
theorem Gathered.judge {lexeme : Lexeme} (h : Gathered limit stack.base stack.frames read)
    (hjudge : stack.judge limit lexeme = .ok stack') :
    Gathered limit stack'.base stack'.frames (read ++ [lexeme]) := by
  obtain ⟨base, frames⟩ := stack
  cases lexeme with
  | operand text span =>
    cases hjudge
    exact h.append (.operand _ _ _ (.operand text span) .nil)
  | operator op span =>
    cases hjudge
    exact h.append (.operator op span _ .nil)
  | opening span =>
    rw [Stack.judge] at hjudge
    split at hjudge
    · cases hjudge
    · next hroom =>
      cases hjudge
      exact Gathered.opening h span (Nat.lt_of_not_le hroom)
  | closing span =>
    cases frames with
    | nil => cases hjudge
    | cons frame below =>
      simp only [Stack.judge] at hjudge
      cases hcheck : frame.queue.check frame.position with
      | error =>
        rw [hcheck] at hjudge
        cases hjudge
      | ok =>
        rw [hcheck] at hjudge
        cases hjudge
        exact Gathered.closing h hcheck _ span

theorem Gathered.foldlM_judge (h : Gathered limit stack.base stack.frames read)
    (hjudge : lexemes.foldlM (Stack.judge limit) stack = .ok stack') :
    Gathered limit stack'.base stack'.frames (read ++ lexemes) := by
  induction lexemes generalizing stack read with
  | nil =>
    cases hjudge
    rwa [List.append_nil]
  | cons lexeme rest ih =>
    rw [List.foldlM_cons] at hjudge
    cases hstep : stack.judge limit lexeme with
    | error =>
      rw [hstep] at hjudge
      cases hjudge
    | ok next =>
      rw [hstep] at hjudge
      have hnext := ih (h.judge hstep) hjudge
      rwa [List.append_assoc] at hnext

/-- The verdict fails at a lexeme, after all before it have been passed, or at the end. -/
theorem exists_of_judge_eq_error {fault : SyntaxError}
    (h : (lexemes.foldlM (judge limit) stack >>= judgeEnd) = .error fault) :
    ∃ before after reached, lexemes = before ++ after ∧
      before.foldlM (judge limit) stack = .ok reached ∧
      match after with
      | [] => reached.judgeEnd = .error fault
      | lexeme :: _ => reached.judge limit lexeme = .error fault := by
  induction lexemes generalizing stack with
  | nil => exact ⟨[], [], stack, rfl, rfl, h⟩
  | cons lexeme rest ih =>
    rw [List.foldlM_cons] at h
    cases hstep : stack.judge limit lexeme with
    | error e =>
      rw [hstep] at h
      cases h
      exact ⟨[], lexeme :: rest, stack, rfl, rfl, hstep⟩
    | ok next =>
      rw [hstep] at h
      obtain ⟨before, after, reached, rfl, hbefore, hafter⟩ := ih h
      refine ⟨lexeme :: before, after, reached, rfl, ?_, hafter⟩
      rw [List.foldlM_cons, hstep]
      exact hbefore

end Stack

mutual

/-- The verdict passes an expression that nests no deeper than there is room for, and what it
gathers of it is a well-formed queue. -/
theorem IsExpression.foldlM_judge {depth : Nat} {lexemes : List Lexeme} (limit : Nat)
    (stack : Stack) : IsExpression depth lexemes → depth + stack.frames.length ≤ limit →
      ∃ queue : Queue, lexemes.foldlM (Stack.judge limit) stack = .ok (stack.append queue) ∧
        ∀ atEnd, queue.checkFrom atEnd = .ok ()
  | .one h, hroom => by
    obtain ⟨position, hjudge⟩ := h.foldlM_judge limit stack hroom
    exact ⟨_, hjudge, fun _ ↦ rfl⟩
  | .more op span h hrest, hroom => by
    obtain ⟨position, hjudge⟩ := h.foldlM_judge limit stack hroom
    let between := (stack.append [.operand .null none position]).append [.operator op span.start]
    have hbetween : depth + between.frames.length ≤ limit := by
      rwa [Stack.length_frames_append, Stack.length_frames_append]
    obtain ⟨queue, hqueue, hcheck⟩ := hrest.foldlM_judge limit between hbetween
    refine ⟨.operand .null none position :: .operator op span.start :: queue, ?_,
      fun _ ↦ hcheck _⟩
    rw [List.foldlM_append, hjudge]
    refine hqueue.trans ?_
    rw [Stack.append_append, Stack.append_append]
    rfl

/-- A primary is gathered as one operand. -/
theorem IsPrimary.foldlM_judge {depth : Nat} {lexemes : List Lexeme} (limit : Nat) (stack : Stack) :
    IsPrimary depth lexemes → depth + stack.frames.length ≤ limit →
      ∃ position, lexemes.foldlM (Stack.judge limit) stack =
        .ok (stack.append [.operand .null none position])
  | .operand text span, _ => ⟨span.start, rfl⟩
  | .group opening closing h, hroom => by
    have hopening : stack.judge limit (.opening opening) =
        .ok ⟨stack.base, ⟨opening.start, []⟩ :: stack.frames⟩ := by
      rw [Stack.judge, if_neg (by omega)]
    obtain ⟨queue, hqueue, hcheck⟩ :=
      h.foldlM_judge limit ⟨stack.base, ⟨opening.start, []⟩ :: stack.frames⟩
        (by rw [List.length_cons]; omega)
    refine ⟨opening.start, ?_⟩
    rw [List.foldlM_cons, hopening]
    show (_ ++ [_]).foldlM (Stack.judge limit) _ = _
    rw [List.foldlM_append, hqueue]
    show (Queue.check queue opening.start).map _ >>= pure = _
    rw [Queue.check, hcheck]
    rfl

end

/-- The verdict decides the grammar. -/
theorem Expression.verdict_eq_ok_iff {limit : Nat} {lexemes : List Lexeme} :
    verdict limit lexemes = .ok () ↔ IsExpression limit lexemes := by
  constructor
  · intro h
    rw [verdict] at h
    cases hjudge : lexemes.foldlM (Stack.judge limit) .empty with
    | error =>
      rw [hjudge] at h
      cases h
    | ok stack =>
      rw [hjudge] at h
      have hend : stack.judgeEnd = .ok () := h
      have hgathered := Stack.Gathered.empty.foldlM_judge hjudge
      obtain ⟨base, frames⟩ := stack
      cases frames with
      | nil => exact Gathers.isExpression hgathered hend
      | cons => cases hend
  · intro h
    obtain ⟨queue, hjudge, hcheck⟩ := h.foldlM_judge limit .empty (Nat.le_refl _)
    rw [verdict, hjudge]
    exact hcheck _

/-! ### Divisions by zero and the verdict -/

namespace Stack

variable {σ : Type} {limit place : Nat} {stack : Stack} {progress progress' : Progress σ}

/-- The verdict has nothing against a lexeme at which a level divides by zero, -/
theorem exists_judge_of_divided {lexeme : Lexeme}
    (h : Fails limit stack progress lexeme (.failed (.divisionByZero (some place))) progress') :
    ∃ next, stack.shape.judge limit lexeme = .ok next := by
  cases h with
  | closing base frame below _ span hfinish =>
    cases Expression.fails_of_finish hfinish with
    | failed hcheck =>
      have hshape : Queue.check (frame.queue.map Entry.shape) frame.position = .ok () := by
        rw [Queue.check_shape, hcheck]
      refine ⟨append [.operand .null none frame.position] (shape ⟨base, below⟩), ?_⟩
      show (Queue.check (frame.queue.map Entry.shape) frame.position).map _ = _
      rw [hshape]
      rfl

/-- nor against the end, if the outermost level does. -/
theorem judgeEnd_of_divided
    (h : (stack.conclude : Evaluation σ Value).run progress =
      (.error (.failed (.divisionByZero (some place))), progress')) :
    stack.shape.judgeEnd = .ok () := by
  obtain ⟨base, frames⟩ := stack
  cases frames with
  | cons => cases h
  | nil =>
    rw [conclude, Reduction.run_within] at h
    obtain ⟨hvalue, -⟩ := Prod.mk.inj h
    cases Expression.fails_of_conclude (Prod.ext hvalue rfl) with
    | failed hcheck => exact (Queue.check_shape base 0).trans hcheck

end Stack

/-! ### Groups that have been closed -/

namespace Tree

/-- The parentheses of a tree are balanced. -/
theorem foldl_nest_lexemes (tree : Tree Written) (depth : Nat) :
    tree.lexemes.foldl Lexeme.nest depth = depth := by
  induction tree generalizing depth with
  | leaf => rfl
  | group opening closing body ih =>
    rw [lexemes, List.foldl_cons, List.foldl_append, ih]
    rfl
  | node op span left right ihl ihr =>
    rw [lexemes, List.foldl_append, ihl, List.foldl_cons]
    exact ihr depth

variable {σ : Type} {env : Environment σ} {limit : Nat}

/-- A tree that the pass gets through nests no deeper than there was room for. -/
theorem depth_add_length_le {tree : Tree Written} {stack stack' : Stack}
    {progress progress' : Progress σ} (hroom : stack.frames.length ≤ limit)
    (hrun : (tree.lexemes.foldlM (Stack.step env limit) stack).run progress =
      (.ok stack', progress')) :
    tree.depth + stack.frames.length ≤ limit := by
  induction tree generalizing stack stack' progress progress' with
  | leaf => rwa [depth, Nat.zero_add]
  | group opening closing body ih =>
    rw [lexemes, List.foldlM_cons] at hrun
    obtain ⟨pushed, between, hopening, hrest⟩ := run_bind_eq_ok hrun
    rw [List.foldlM_append] at hrest
    obtain ⟨_, _, hbody, -⟩ := run_bind_eq_ok hrest
    cases Stack.moves_of_step hopening with
    | opening base frames _ _ hlt =>
      have hpushed : (Stack.mk base (⟨opening.start, []⟩ :: frames)).frames.length ≤ limit := hlt
      have hdepth := ih hpushed hbody
      simp only [List.length_cons] at hdepth
      simp only [depth]
      omega
  | node op span left right ihl ihr =>
    rw [lexemes, List.foldlM_append] at hrun
    obtain ⟨reached, between, hleft, hrest⟩ := run_bind_eq_ok hrun
    have hdepth := ihl hroom hleft
    -- reading the left side opens no level for good
    rw [foldlM_step_lexemes env limit left stack hdepth] at hleft
    obtain ⟨queue, _, _, happend⟩ := run_bind_eq_ok hleft
    cases happend
    rw [List.foldlM_cons] at hrest
    obtain ⟨_, _, hop, hright⟩ := run_bind_eq_ok hrest
    cases hop
    have hframes : ((stack.append queue).append [.operator op span.start]).frames.length =
        stack.frames.length := by
      rw [Stack.length_frames_append, Stack.length_frames_append]
    have hdepth' := ihr (hframes ▸ hroom) hright
    rw [hframes] at hdepth'
    simp only [depth]
    omega

end Tree

namespace Expression

variable {σ : Type} {env : Environment σ} {limit : Nat} {label : String} {world : σ}
  {read : List Lexeme} {stack : Stack} {progress : Progress σ}

/-- The world that the calls of lexemes leave. -/
def worldAfter (env : Environment σ) (world : σ) (read : List Lexeme) : σ :=
  (callees env read).foldl env.call world

/-- A group that is closed among the lexemes divides by zero: with its operands looked up in the
world that the lexemes before it leave, the place is that of its first division by zero. -/
def Divides (env : Environment σ) (world : σ) (read : List Lexeme) (place : Nat) : Prop :=
  ∃ (earlier : List Lexeme) (opening closing : Span) (body : Tree Written) (later : List Lexeme),
    read = earlier ++ (Tree.group opening closing body).lexemes ++ later ∧ body.WellBound ∧
      (body.resolve env (worldAfter env world earlier)).1.faults.head? = some place

/-- The pass reads a group as it reads its tree, in the world that the lexemes before it leave. -/
theorem run_group {opening closing : Span} {body : Tree Written}
    (hread : (read.foldlM (Stack.step env limit) .empty).run ⟨⟨label, #[]⟩, world⟩ =
      (.ok stack, progress))
    (hbound : body.WellBound)
    (hroom : (Tree.group opening closing body).depth + stack.frames.length ≤ limit) :
    let faults := (body.resolve env (worldAfter env world read)).1.faults
    (∃ stack' progress', faults = [] ∧
      ((Tree.group opening closing body).lexemes.foldlM (Stack.step env limit) stack).run
        progress = (.ok stack', progress')) ∨
    ∃ place progress', faults.head? = some place ∧
      ((Tree.group opening closing body).lexemes.foldlM (Stack.step env limit) stack).run
        progress = (.error (.failed (.divisionByZero (some place))), progress') := by
  intro faults
  have hstart : Progress.Called env world [] (⟨⟨label, #[]⟩, world⟩ : Progress σ) := ⟨rfl, rfl⟩
  have hworld : progress.world = worldAfter env world read :=
    (Stack.keeps_called.foldlM hstart hread).world
  have hgroup : (Tree.group opening closing body).WellBound := hbound
  rw [Tree.foldlM_step_lexemes env limit _ stack hroom]
  cases hfaults : faults with
  | nil =>
    have hinner : ((Tree.group opening closing body).resolve env
        progress.world).1.innerFaults = [] := by
      rw [hworld]
      exact hfaults
    obtain ⟨trail, hrun⟩ := Tree.run_read env hgroup progress hinner
    rw [run_bind_of_ok hrun]
    exact .inl ⟨_, _, rfl, rfl⟩
  | cons place more =>
    have hinner : ((Tree.group opening closing body).resolve env
        progress.world).1.innerFaults = place :: more := by
      rw [hworld]
      exact hfaults
    obtain ⟨progress', hrun⟩ := Tree.run_read_of_innerFaults env hgroup progress hinner
    rw [run_bind_of_error hrun]
    exact .inr ⟨place, progress', rfl, rfl⟩

/-- No group that the pass has got through divides by zero. -/
theorem not_divides_of_read
    (hread : (read.foldlM (Stack.step env limit) .empty).run ⟨⟨label, #[]⟩, world⟩ =
      (.ok stack, progress)) (place : Nat) : ¬Divides env world read place := by
  rintro ⟨earlier, opening, closing, body, later, rfl, hbound, hplace⟩
  rw [List.append_assoc, List.foldlM_append] at hread
  obtain ⟨reached, between, hearlier, hrest⟩ := run_bind_eq_ok hread
  rw [List.foldlM_append] at hrest
  obtain ⟨_, _, hgroup, -⟩ := run_bind_eq_ok hrest
  have hreached := (Stack.nesting_of_foldlM hearlier).2
  have hroom := Tree.depth_add_length_le hreached hgroup
  obtain ⟨_, _, hnone, -⟩ | ⟨_, _, -, herror⟩ := run_group hearlier hbound hroom
  · rw [hnone] at hplace
    cases hplace
  · rw [hgroup] at herror
    cases herror

/-- A lexeme at which the pass fails with a division by zero closes a group, and the division is the
first of that group. -/
theorem divides_of_step {lexeme : Lexeme} {place : Nat} {final : Progress σ}
    (hread : (read.foldlM (Stack.step env limit) .empty).run ⟨⟨label, #[]⟩, world⟩ =
      (.ok stack, progress))
    (hstep : (stack.step env limit lexeme).run progress =
      (.error (.failed (.divisionByZero (some place))), final)) :
    (∃ span, lexeme = .closing span) ∧ Divides env world (read ++ [lexeme]) place := by
  have hgathered := Stack.Gathered.empty.foldlM hread
  have hnesting := (Stack.nesting_of_foldlM hread).1
  cases Stack.fails_of_step hstep with
  | @closing base frame below _ span _ ledger hfinish =>
    refine ⟨⟨span, rfl⟩, ?_⟩
    cases fails_of_finish hfinish with
    | failed hcheck =>
      -- the group is the expression that its level has been gathered from
      obtain ⟨earlier, opening, inside, hsplit, hlt, -, hinside⟩ := hgathered
      rw [List.nil_append] at hsplit
      subst hsplit
      obtain ⟨body, hbound, rfl, hdepth⟩ := (hinside.isExpression hcheck).exists_tree
      refine ⟨earlier, opening, span, body, [], by simp [Tree.lexemes], hbound, ?_⟩
      have hall : ((earlier ++ (Tree.group opening span body).lexemes).foldlM
          (Stack.step env limit) .empty).run ⟨⟨label, #[]⟩, world⟩ =
            (.error (.failed (.divisionByZero (some place))),
              { progress with toLedger := ledger }) := by
        rw [Tree.lexemes, ← List.cons_append, ← List.append_assoc, List.foldlM_append,
          run_bind_of_ok hread]
        exact run_bind_of_error hstep
      rw [List.foldlM_append] at hread hall
      obtain ⟨reached, between, hearlier, -⟩ := run_bind_eq_ok hread
      have hgroup := (run_bind_of_ok hearlier).symm.trans hall
      have hreached := (Stack.nesting_of_foldlM hearlier).1
      have hroom : (Tree.group opening span body).depth + reached.frames.length ≤ limit := by
        rw [nesting, List.foldl_append, List.foldl_cons, Tree.foldl_nest_lexemes] at hnesting
        rw [nesting] at hreached
        simp only [List.length_cons, Lexeme.nest] at hnesting
        simp only [Tree.depth]
        omega
      obtain ⟨_, _, -, hok⟩ | ⟨place', _, hplace, herror⟩ := run_group hearlier hbound hroom
      · rw [hgroup] at hok
        cases hok
      · rw [hgroup] at herror
        cases herror
        exact hplace

/-! ### Faults -/

/-- The verdict finds the fault between the lexemes that it has passed and the rest: at the first of
the rest or, if there is none, at the end. -/
def FaultBetween (limit : Nat) (read rest : List Lexeme) (fault : SyntaxError) : Prop :=
  ∃ stack, read.foldlM (Stack.judge limit) .empty = .ok stack ∧
    match rest with
    | [] => stack.judgeEnd = .error fault
    | lexeme :: _ => stack.judge limit lexeme = .error fault

/-- Behind what the verdict passes, it finds a fault in what is no expression. -/
theorem exists_faultBetween {rest : List Lexeme} {judged : Stack}
    (hread : read.foldlM (Stack.judge limit) .empty = .ok judged)
    (h : ¬IsExpression limit (read ++ rest)) :
    ∃ before after fault, rest = before ++ after ∧
      FaultBetween limit (read ++ before) after fault := by
  cases hverdict : verdict limit (read ++ rest) with
  | ok => exact absurd (verdict_eq_ok_iff.1 hverdict) h
  | error fault =>
    rw [verdict, List.foldlM_append, hread] at hverdict
    obtain ⟨before, after, reached, hsplit, hbefore, hafter⟩ :=
      Stack.exists_of_judge_eq_error hverdict
    refine ⟨before, after, fault, hsplit, reached, ?_, hafter⟩
    rw [List.foldlM_append, hread]
    exact hbefore

/-- What is reported of lexemes that are no expression. -/
inductive FirstFault (env : Environment σ) (limit : Nat) (world : σ) : List Lexeme → Error → Prop
  /-- The fault of the shape is, if no group that is closed before it divides by zero. -/
  | malformed {read rest : List Lexeme} {fault : SyntaxError}
    (hfault : FaultBetween limit read rest fault) (h : ∀ place, ¬Divides env world read place) :
    FirstFault env limit world (read ++ rest) (.malformed fault)
  /-- Otherwise the division of the group that is closed first is. -/
  | divided {before between rest : List Lexeme} {closing : Span} {fault : SyntaxError} {place : Nat}
    (hfault : FaultBetween limit (before ++ .closing closing :: between) rest fault)
    (hbefore : ∀ place, ¬Divides env world before place)
    (h : Divides env world (before ++ [.closing closing]) place) :
    FirstFault env limit world ((before ++ .closing closing :: between) ++ rest)
      (.failed (.divisionByZero (some place)))

/-- The first fault of lexemes that are no expression is the answer. -/
theorem exists_firstFault (env : Environment σ) (limit : Nat) {lexemes : List Lexeme}
    (label : String) (world : σ) (h : ¬IsExpression limit lexemes) :
    ∃ e, (evaluate env limit lexemes label world).answer = .error e ∧
      FirstFault env limit world lexemes e := by
  obtain ⟨answer, progress, hpasses, hreport⟩ := evaluate_passes env limit lexemes label world
  rw [hreport]
  have hempty : [].foldlM (Stack.judge limit) Stack.empty = .ok Stack.empty.shape := rfl
  cases hpasses with
  | @atLexeme before lexeme after reached _ _ e hread hstep =>
    have hshape : before.foldlM (Stack.judge limit) .empty = .ok reached.shape :=
      Stack.keeps_shape.foldlM hempty hread
    refine ⟨e, rfl, ?_⟩
    obtain ⟨place, rfl⟩ | ⟨fault, hjudge, rfl⟩ := Stack.judge_of_fails (Stack.fails_of_step hstep)
    · obtain ⟨⟨closing, rfl⟩, hdivides⟩ := divides_of_step hread hstep
      obtain ⟨next, hnext⟩ := Stack.exists_judge_of_divided (Stack.fails_of_step hstep)
      have hclosed : (before ++ [Lexeme.closing closing]).foldlM (Stack.judge limit) .empty =
          .ok next := by
        rw [List.foldlM_append, hshape]
        show reached.shape.judge limit (Lexeme.closing closing) >>= pure = _
        rw [bind_pure, hnext]
      rw [List.append_cons] at h ⊢
      obtain ⟨between, rest, fault, rfl, hfault⟩ := exists_faultBetween hclosed h
      rw [← List.append_assoc]
      rw [← List.append_cons] at hfault ⊢
      exact .divided hfault (not_divides_of_read hread) hdivides
    · exact .malformed ⟨reached.shape, hshape, hjudge⟩ (not_divides_of_read hread)
  | @atEnd _ stack _ _ _ hread hconclude =>
    have hshape : lexemes.foldlM (Stack.judge limit) .empty = .ok stack.shape :=
      Stack.keeps_shape.foldlM hempty hread
    -- an outermost level without a fault makes an expression of the lexemes
    have hend : stack.shape.judgeEnd ≠ .ok () := by
      intro hend
      refine h (verdict_eq_ok_iff.1 ?_)
      rw [verdict, hshape]
      exact hend
    cases answer with
    | ok value => exact absurd (Stack.judgeEnd_of_conclude hconclude) hend
    | error e =>
      refine ⟨e, rfl, ?_⟩
      obtain ⟨place, rfl⟩ | ⟨fault, hfault, rfl⟩ := Stack.judgeEnd_of_conclude_error hconclude
      · exact absurd (Stack.judgeEnd_of_divided hconclude) hend
      · rw [← List.append_nil lexemes]
        exact .malformed ⟨stack.shape, hshape, hfault⟩ (not_divides_of_read hread)

end Expression

namespace Evaluator

variable {σ : Type} (env : Environment σ) (limit : Nat) (world : σ)

/-- A source that is no expression, or nests too deep for one, never has an outcome. Its shape has a
fault, which is the same in every environment. The answer is this fault exactly if no group that is
closed before the fault comes up divides by zero, and otherwise it is the division of the first
such group. -/
theorem evaluate_malformed {source : String} (h : ¬IsExpression limit (Lexeme.scan source)) :
    ∃ e, (((ofSource source).limitedTo limit).evaluate env world).1.answer = .error e ∧
      Expression.FirstFault env limit world (Lexeme.scan source) e := by
  rw [evaluate_fst]
  exact Expression.exists_firstFault env limit source world h

/-- In `(a&&b))` the last parenthesis is reported, which is unmatched. -/
theorem evaluate_malformed_behind_group :
    let env : Environment Unit := ⟨fun _ ↦ none, fun _ ↦ none⟩
    let answer := (((ofSource "(a&&b))").limitedTo 1).evaluate env ()).1.answer
    ¬IsExpression 1 (Lexeme.scan "(a&&b))") ∧
      answer = .error (.malformed (.unmatchedClosing 6)) ∧
      Expression.FirstFault env 1 () (Lexeme.scan "(a&&b))")
        (.malformed (.unmatchedClosing 6)) := by
  intro env answer
  have hscan : Lexeme.scan "(a&&b))" = [.opening ⟨0, 1⟩, .operand "a" ⟨1, 2⟩,
      .operator (.logic .and) ⟨2, 4⟩, .operand "b" ⟨4, 5⟩, .closing ⟨5, 6⟩,
      .closing ⟨6, 7⟩] := by cbv
  have hmalformed : ¬IsExpression 1 (Lexeme.scan "(a&&b))") := by
    rw [← Expression.verdict_eq_ok_iff, hscan]
    intro h
    cases h
  have hanswer : answer = .error (.malformed (.unmatchedClosing 6)) := by
    show (((ofSource "(a&&b))").limitedTo 1).evaluate env ()).1.answer = _
    rw [evaluate_fst]
    show (Expression.evaluate env 1 (Lexeme.scan "(a&&b))") "(a&&b))" ()).answer = _
    rw [hscan, Expression.evaluate, Expression.value_eq_pass]
    rfl
  obtain ⟨e, he, hfirst⟩ := evaluate_malformed env 1 () hmalformed
  cases hanswer.symm.trans he
  exact ⟨hmalformed, hanswer, hfirst⟩

/-- In `(1/0))` it is not: the division in the group, which comes up before, is reported instead. -/
theorem evaluate_malformed_ne_syntaxError :
    let env : Environment Unit := ⟨fun _ ↦ none, fun _ ↦ none⟩
    let answer := (((ofSource "(1/0))").limitedTo defaultLimit).evaluate env ()).1.answer
    ¬IsExpression defaultLimit (Lexeme.scan "(1/0))") ∧
      answer = .error (.failed (.divisionByZero (some 2))) ∧
      ¬∃ fault, answer = .error (.malformed fault) := by
  intro env answer
  have hscan : Lexeme.scan "(1/0))" = [.opening ⟨0, 1⟩, .operand "1" ⟨1, 2⟩,
      .operator (.arithmetic .divide) ⟨2, 3⟩, .operand "0" ⟨3, 4⟩, .closing ⟨4, 5⟩,
      .closing ⟨5, 6⟩] := by cbv
  have hmalformed : ¬IsExpression defaultLimit (Lexeme.scan "(1/0))") := by
    rw [← Expression.verdict_eq_ok_iff, hscan]
    intro h
    cases h
  have hanswer : answer = .error (.failed (.divisionByZero (some 2))) := by
    show (((ofSource "(1/0))").limitedTo defaultLimit).evaluate env ()).1.answer = _
    rw [evaluate_fst]
    show (Expression.evaluate env defaultLimit (Lexeme.scan "(1/0))") "(1/0))" ()).answer = _
    rw [hscan, Expression.evaluate, Expression.value_eq_pass]
    rfl
  refine ⟨hmalformed, hanswer, ?_⟩
  rintro ⟨fault, hfault⟩
  cases hanswer.symm.trans hfault

end Evaluator

end Qualifier
