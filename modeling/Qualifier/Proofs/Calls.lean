import Qualifier.Proofs.Frames
import Qualifier.Proofs.Level

/-!
# Calls

Which callbacks an evaluation calls. An operand that starts with `@` and names a registered callback
calls it once, when the operand is read, and nothing else calls anything: operators see values only,
so neither `&&` and `||` nor an error can keep an operand that has been read from being called.

`Progress.Called` says of a progress that the lexemes read so far have made their calls and no
others, in their order, and that the world is as these calls left it. Operands extend it
(`Called.extend`), levels leave it alone as they note no call (`Queue.respected_calls`), and so the
pass keeps it.

An evaluation that fails has read the lexemes before the one at which it fails, or all of them if it
fails at the end. That point can be told from outside: it is the first after which the error is
certain, whatever follows (`Expression.IsCertain`). The main statement is
`Expression.evaluate_calls`.
-/

namespace Qualifier

/-! ### Calls of lexemes -/

/-- The callback that a lexeme calls: the name behind the sign of an operand, if registered. -/
def Lexeme.call? {σ : Type} (env : Environment σ) : Lexeme → Option String
  | .operand text _ =>
    match text.toList with
    | '@' :: name =>
      if (env.callback? (String.ofList name)).isSome then some (String.ofList name) else none
    | _ => none
  | .operator .. | .opening _ | .closing _ => none

/-- The calls that lexemes make, in their order. -/
def Expression.callees {σ : Type} (env : Environment σ) (lexemes : List Lexeme) : List String :=
  lexemes.filterMap (Lexeme.call? env)

/-- The world after a call. -/
def Environment.call {σ : Type} (env : Environment σ) (world : σ) (name : String) : σ :=
  match env.callback? name with
  | some callback => (callback world).2
  | none => world

/-- The calls of the events so far. -/
def Ledger.calls (ledger : Ledger) : List String :=
  ledger.trail.toList.filterMap Event.call?

@[simp] theorem Ledger.calls_note (ledger : Ledger) (event : Event) :
    (ledger.note event).calls = ledger.calls ++ event.call?.toList :=
  ledger.seen_note event

/-- The lexemes have made their calls and no others. -/
structure Progress.Called {σ : Type} (env : Environment σ) (world : σ) (read : List Lexeme)
    (progress : Progress σ) : Prop where
  /-- The calls are in the order of the lexemes, -/
  calls : progress.calls = Expression.callees env read
  /-- and the world is as they left it. -/
  world : progress.world = (Expression.callees env read).foldl env.call world

/-! ### Operands -/

/-- The callback that an operand calls. -/
def Operand.callee? {σ : Type} (env : Environment σ) : Operand → Option String
  | .call name => if (env.callback? name).isSome then some name else none
  | .path .. | .literal _ => none

section

variable {σ : Type} {env : Environment σ} {world : σ} {read : List Lexeme} {progress : Progress σ}

theorem Lexeme.call?_operand (text : String) (span : Span) :
    call? env (.operand text span) = (Operand.ofText text).callee? env := by
  simp only [call?, Operand.ofText]
  cases text.toList with
  | nil => rfl
  | cons c rest =>
    by_cases hpath : c = '$'
    · subst hpath
      rfl
    by_cases hcall : c = '@'
    · subst hcall
      rfl
    · split <;> simp_all [Operand.callee?]

variable (env progress) in
/-- Looking an operand up makes the call of the operand, if it has one. -/
theorem Operand.calls_lookUp (operand : Operand) :
    (operand.lookUp env progress).2.calls = progress.calls ++ (operand.callee? env).toList ∧
      (operand.lookUp env progress).2.world =
        (operand.callee? env).toList.foldl env.call progress.world := by
  cases operand with
  | literal text => simp [lookUp, callee?]
  | path root segments =>
    simp only [lookUp, callee?]
    cases env.datum? root with
    | none => simp [Progress.note, Event.call?]
    | some datum =>
      dsimp only
      cases datum.descend segments <;> simp [Progress.note, Event.call?]
  | call name =>
    simp only [lookUp, callee?]
    cases hcallback : env.callback? name with
    | none => simp [Progress.note, Event.call?]
    | some callback =>
      simp [Progress.note, Event.call?, Environment.call, hcallback]

/-- A lexeme adds the call that it makes, if it makes one. -/
theorem Progress.Called.extend {progress' : Progress σ} {lexeme : Lexeme}
    (h : progress.Called env world read)
    (hcalls : progress'.calls = progress.calls ++ (lexeme.call? env).toList)
    (hworld : progress'.world = (lexeme.call? env).toList.foldl env.call progress.world) :
    progress'.Called env world (read ++ [lexeme]) := by
  have hcallees : Expression.callees env (read ++ [lexeme]) =
      Expression.callees env read ++ (lexeme.call? env).toList :=
    filterMap_append_singleton ..
  constructor
  · rw [hcallees, hcalls, h.calls]
  · rw [hcallees, hworld, h.world, List.foldl_append]

end

/-! ### Levels -/

/-- Operators note no calls, and so neither do levels. -/
theorem Queue.respected_calls : Respected fun before after ↦ after.calls = before.calls :=
  respected_seen (fun _ _ ↦ rfl) fun _ _ _ _ ↦ rfl

/-! ### The pass -/

namespace Stack

variable {σ : Type} {env : Environment σ} {limit : Nat} {world : σ} {read : List Lexeme}
  {stack : Stack} {progress progress' : Progress σ}

/-- Each lexeme makes the call that it makes, and keeps the calls before it. -/
theorem keeps_called : Keeps env limit fun read (_ : Stack) progress ↦
    progress.Called env world read := by
  intro read stack progress lexeme stack' progress' h hmove
  cases hmove with
  | operand _ _ text span =>
    obtain ⟨hcalls, hworld⟩ := Operand.calls_lookUp env progress (.ofText text)
    rw [← Lexeme.call?_operand text span] at hcalls hworld
    exact h.extend hcalls hworld
  | operator => exact h.extend (List.append_nil _).symm rfl
  | opening => exact h.extend (List.append_nil _).symm rfl
  | closing base frame below _ span hfinish =>
    have hcalls := Queue.respected_calls.finish frame.queue frame.position progress.toLedger
    rw [hfinish] at hcalls
    exact h.extend (hcalls.trans (List.append_nil _).symm) rfl

/-- A lexeme that fails makes no call. -/
theorem called_of_step {lexeme : Lexeme} {e : Error} (h : progress.Called env world read)
    (hstep : (stack.step env limit lexeme).run progress = (.error e, progress')) :
    progress'.Called env world read := by
  obtain ⟨hcalls, hworld⟩ := Queue.respected_calls.of_step hstep
  exact ⟨hcalls.trans h.calls, hworld.trans h.world⟩

/-- Nor does the end. -/
theorem called_of_conclude {answer : Except Error Value} (h : progress.Called env world read)
    (hrun : (stack.conclude : Evaluation σ Value).run progress = (answer, progress')) :
    progress'.Called env world read := by
  obtain ⟨hcalls, hworld⟩ := Queue.respected_calls.of_conclude hrun
  exact ⟨hcalls.trans h.calls, hworld.trans h.world⟩

end Stack

/-! ### Where an evaluation fails -/

/-- The error is of a kind that a level can end with. -/
def Error.IsOfLevel : Error → Prop
  | .malformed (.missingOperand ..) | .malformed (.unexpectedOperand _)
  | .malformed (.emptyExpression _) | .failed (.divisionByZero _) => True
  | .malformed _ | .failed (.unknownOperator _) => False

/-- The error is of a kind that can come up at the lexeme or, without a lexeme, at the end. -/
inductive Error.RaisedAt (limit : Nat) : Error → Option Lexeme → Prop
  /-- Parentheses are nested too deep at an opening parenthesis, -/
  | nestingTooDeep (span : Span) :
    RaisedAt limit (.malformed (.nestingTooDeep limit span.start)) (some (.opening span))
  /-- an unmatched closing parenthesis is its own fault, -/
  | unmatchedClosing (span : Span) :
    RaisedAt limit (.malformed (.unmatchedClosing span.start)) (some (.closing span))
  /-- and what is wrong with a group comes up when the group is closed. -/
  | group {e : Error} (span : Span) (h : e.IsOfLevel) : RaisedAt limit e (some (.closing span))
  /-- That a parenthesis is never closed is known at the end, -/
  | unclosedOpening (position : Nat) :
    RaisedAt limit (.malformed (.unclosedOpening position)) none
  /-- and so is what is wrong with the outermost level. -/
  | outermost {e : Error} (h : e.IsOfLevel) : RaisedAt limit e none

theorem Queue.isOfLevel_of_checkFrom {queue : Queue} {atEnd fault : SyntaxError}
    (hend : (Error.malformed atEnd).IsOfLevel) (hcheck : queue.checkFrom atEnd = .error fault) :
    (Error.malformed fault).IsOfLevel := by
  fun_induction queue.checkFrom atEnd with
  | case1 =>
    cases hcheck
    exact hend
  | case2 =>
    cases hcheck
    trivial
  | case3 => cases hcheck
  | case4 =>
    cases hcheck
    trivial
  | case5 _ _ _ _ _ _ _ ih => exact ih trivial hcheck

theorem Queue.Fails.isOfLevel {queue : Queue} {position : Nat} {e : Error}
    (h : queue.Fails position e) : e.IsOfLevel := by
  cases h with
  | malformed hcheck =>
    have hempty : (Error.malformed (.emptyExpression position)).IsOfLevel := trivial
    exact isOfLevel_of_checkFrom hempty hcheck
  | failed => trivial

namespace Stack

variable {σ : Type} {env : Environment σ} {limit : Nat} {stack : Stack}
  {progress progress' : Progress σ} {e : Error}

theorem raisedAt_of_fails {lexeme : Lexeme} (h : Fails limit stack progress lexeme e progress') :
    e.RaisedAt limit (some lexeme) := by
  cases h with
  | opening => exact .nestingTooDeep _
  | unmatched => exact .unmatchedClosing _
  | closing _ _ _ _ span hfinish =>
    exact .group span (Expression.fails_of_finish hfinish).isOfLevel

theorem raisedAt_of_conclude
    (h : (stack.conclude : Evaluation σ Value).run progress = (.error e, progress')) :
    e.RaisedAt limit none := by
  obtain ⟨base, frames⟩ := stack
  cases frames with
  | cons frame below =>
    cases h
    exact .unclosedOpening frame.position
  | nil =>
    rw [conclude, Reduction.run_within] at h
    obtain ⟨hvalue, -⟩ := Prod.mk.inj h
    exact .outermost (Expression.fails_of_conclude (Prod.ext hvalue rfl)).isOfLevel

/-- Any stack is too deep after enough opening parentheses. -/
theorem foldlM_replicate_opening (span : Span) {n : Nat} (h : limit ≤ stack.frames.length + n) :
    ((List.replicate (n + 1) (.opening span)).foldlM (step env limit) stack).run progress =
      (.error (.malformed (.nestingTooDeep limit span.start)), progress) := by
  induction n generalizing stack with
  | zero =>
    have hstep : stack.step env limit (.opening span) =
        throw (.malformed (.nestingTooDeep limit span.start)) := if_pos h
    rw [List.replicate_succ, List.foldlM_cons, hstep]
    rfl
  | succ n ih =>
    rw [List.replicate_succ, List.foldlM_cons, step]
    split
    · rfl
    · have hdeeper : limit ≤ (⟨span.start, []⟩ :: stack.frames).length + n := by
        rw [List.length_cons]
        omega
      exact ih hdeeper

end Stack

namespace Expression

variable {σ : Type} (env : Environment σ) (limit : Nat) (label : String) (world : σ)

/-- After these lexemes the error is certain: whatever follows, the evaluation fails with it. -/
def IsCertain (read : List Lexeme) (e : Error) : Prop :=
  ∀ more, (evaluate env limit (read ++ more) label world).answer = .error e

/-- The evaluation fails between the lexemes that have been read and the rest: at the first of the
rest or, if there is none, at the end. -/
structure FailsBetween (read rest : List Lexeme) (e : Error) : Prop where
  /-- The error can come up there. -/
  raisedAt : e.RaisedAt limit rest.head?
  /-- Before, it is not certain, -/
  before : ¬IsCertain env limit label world read e
  /-- and after the lexeme it is. -/
  after : ∀ lexeme ∈ rest.head?, IsCertain env limit label world (read ++ [lexeme]) e

variable {env limit label world} {read : List Lexeme} {stack : Stack} {progress : Progress σ}

/-- No error is certain as long as the pass goes on. -/
theorem not_isCertain {e : Error} {lexeme? : Option Lexeme}
    (hread : (read.foldlM (Stack.step env limit) .empty).run ⟨⟨label, #[]⟩, world⟩ =
      (.ok stack, progress))
    (hraised : e.RaisedAt limit lexeme?) : ¬IsCertain env limit label world read e := by
  intro hcertain
  -- the expression can go on with so many parentheses that they are too deep
  obtain ⟨position, hdeep⟩ : ∃ position, e = .malformed (.nestingTooDeep limit position) := by
    have hmore : ((List.replicate (limit + 1) (.opening ⟨0, 0⟩)).foldlM (Stack.step env limit)
        stack).run progress = (.error (.malformed (.nestingTooDeep limit 0)), progress) :=
      Stack.foldlM_replicate_opening ⟨0, 0⟩ (Nat.le_add_left ..)
    have hpass : (pass env limit (read ++ List.replicate (limit + 1) (.opening ⟨0, 0⟩))).run
        ⟨⟨label, #[]⟩, world⟩ = (.error (.malformed (.nestingTooDeep limit 0)), progress) := by
      rw [pass, Stack.resume, List.foldlM_append]
      exact run_bind_of_error ((run_bind_of_ok hread).trans hmore)
    have hanswer := hcertain (List.replicate (limit + 1) (.opening ⟨0, 0⟩))
    rw [evaluate_eq_report hpass] at hanswer
    cases hanswer
    exact ⟨0, rfl⟩
  -- and it can end here, which never means that it is nested too deep
  rcases hconclude : (stack.conclude : Evaluation σ Value).run progress with ⟨answer, final⟩
  have hanswer := hcertain []
  rw [List.append_nil, evaluate_eq_report ((run_bind_of_ok hread).trans hconclude)] at hanswer
  cases answer with
  | ok => cases hanswer
  | error e' =>
    cases hanswer
    have hkind : e.RaisedAt limit none := Stack.raisedAt_of_conclude hconclude
    rw [hdeep] at hkind
    cases hkind with
    | outermost h => exact h

/-- An error of the pass is certain from the lexeme on at which it comes up. -/
theorem isCertain_of_step {lexeme : Lexeme} {e : Error} {final : Progress σ}
    (hread : (read.foldlM (Stack.step env limit) .empty).run ⟨⟨label, #[]⟩, world⟩ =
      (.ok stack, progress))
    (hstep : (stack.step env limit lexeme).run progress = (.error e, final)) :
    IsCertain env limit label world (read ++ [lexeme]) e := by
  intro more
  have hpass : (pass env limit (read ++ [lexeme] ++ more)).run ⟨⟨label, #[]⟩, world⟩ =
      (.error e, final) := by
    rw [pass, Stack.resume, List.append_assoc, List.foldlM_append]
    exact run_bind_of_error ((run_bind_of_ok hread).trans (run_bind_of_error hstep))
  rw [evaluate_eq_report hpass]
  rfl

/-- A successful evaluation calls the callbacks of all lexemes, each once and in their order,
whatever the operators and values are; one that fails calls those of the lexemes before the point at
which it fails. The world is as these calls leave it. -/
theorem evaluate_calls (env : Environment σ) (limit : Nat) (lexemes : List Lexeme) (label : String)
    (world : σ) :
    (∀ outcome, (evaluate env limit lexemes label world).answer = .ok outcome →
      (evaluate env limit lexemes label world).calls = callees env lexemes ∧
      (evaluate env limit lexemes label world).world =
        (callees env lexemes).foldl env.call world) ∧
    ∀ e, (evaluate env limit lexemes label world).answer = .error e →
      ∃ read rest, lexemes = read ++ rest ∧ FailsBetween env limit label world read rest e ∧
        (evaluate env limit lexemes label world).calls = callees env read ∧
        (evaluate env limit lexemes label world).world =
          (callees env read).foldl env.call world := by
  have hstart : Progress.Called env world [] (⟨⟨label, #[]⟩, world⟩ : Progress σ) := ⟨rfl, rfl⟩
  obtain ⟨answer, final, hpasses, heq⟩ := evaluate_passes env limit lexemes label world
  rw [heq]
  cases hpasses with
  | atEnd hread hconclude =>
    have hcalled := Stack.called_of_conclude (Stack.keeps_called.foldlM hstart hread) hconclude
    refine ⟨fun _ _ ↦ ⟨hcalled.calls, hcalled.world⟩, fun e he ↦ ?_⟩
    cases answer with
    | ok => cases he
    | error =>
      cases he
      have hraised : e.RaisedAt limit none := Stack.raisedAt_of_conclude hconclude
      have hfails : FailsBetween env limit label world lexemes [] e :=
        ⟨hraised, not_isCertain hread hraised, fun _ h ↦ absurd h (Option.not_mem_none _)⟩
      exact ⟨lexemes, [], (List.append_nil _).symm, hfails, hcalled.calls, hcalled.world⟩
  | @atLexeme read lexeme after _ _ _ _ hread hstep =>
    have hcalled := Stack.called_of_step (Stack.keeps_called.foldlM hstart hread) hstep
    refine ⟨fun outcome houtcome ↦ ?_, fun e he ↦ ?_⟩
    · cases houtcome
    cases he
    have hraised := Stack.raisedAt_of_fails (Stack.fails_of_step hstep)
    refine ⟨read, lexeme :: after, rfl, ⟨hraised, not_isCertain hread hraised, ?_⟩,
      hcalled.calls, hcalled.world⟩
    intro first hfirst
    cases hfirst
    exact isCertain_of_step hread hstep

/-- In `@f && @g` a false `@f` does not keep `@g` from being called; in `(@f / 0) && @g` the
division does, as it comes up at the closing parenthesis. -/
theorem evaluate_calls_both_unless_divided :
    let env : Environment Nat :=
      ⟨fun _ ↦ none, fun _ ↦ some fun world ↦ (.bool false, world + 1)⟩
    let both : List Lexeme := [.operand "@f" ⟨0, 2⟩, .operator (.logic .and) ⟨3, 5⟩,
      .operand "@g" ⟨6, 8⟩]
    let divided : List Lexeme := [.opening ⟨0, 1⟩, .operand "@f" ⟨1, 3⟩,
      .operator (.arithmetic .divide) ⟨4, 5⟩, .operand "0" ⟨6, 7⟩, .closing ⟨7, 8⟩,
      .operator (.logic .and) ⟨9, 11⟩, .operand "@g" ⟨12, 14⟩]
    (evaluate env 1 both "" 0).calls = ["f", "g"] ∧ (evaluate env 1 both "" 0).world = 2 ∧
      (evaluate env 1 divided "" 0).calls = ["f"] ∧
      ∃ read rest, divided = read ++ rest ∧ callees env read = ["f"] ∧
        FailsBetween env 1 "" 0 read rest (.failed (.divisionByZero (some 4))) := by
  intro env both divided
  have hboth : (evaluate env 1 both "" 0).answer = .ok ⟨.bool false, ""⟩ := by
    show (evaluate env 1 both "" 0).answer = _
    rw [evaluate, value_eq_pass]
    rfl
  have hdivided : (evaluate env 1 divided "" 0).answer =
      .error (.failed (.divisionByZero (some 4))) := by
    show (evaluate env 1 divided "" 0).answer = _
    rw [evaluate, value_eq_pass]
    rfl
  have hcalls : (evaluate env 1 divided "" 0).calls = ["f"] := by
    show (evaluate env 1 divided "" 0).calls = _
    rw [evaluate, value_eq_pass]
    rfl
  obtain ⟨hnames, hworld⟩ := (evaluate_calls env 1 both "" 0).1 _ hboth
  obtain ⟨read, rest, heq, hfails, hread, -⟩ := (evaluate_calls env 1 divided "" 0).2 _ hdivided
  exact ⟨hnames, hworld, hcalls, read, rest, heq, hread.symm.trans hcalls, hfails⟩

end Expression

end Qualifier
