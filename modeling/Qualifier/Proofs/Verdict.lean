import Qualifier.Proofs.Frames
import Qualifier.Proofs.Level

/-!
# The verdict on the shape

Whether an expression is well formed is a matter of its lexemes alone. `Expression.verdict` decides
it by a pass over the lexemes that looks no operand up and applies no operator: it has no
environment to look into. A level that ends is checked, and counts in the level around it as an
operand whose value nobody asks for.

The pass that evaluates keeps a stack of the same shape (`Stack.shape`): positions and operators are
those of the verdict, and only values and spellings differ, to which no check attends. So each
lexeme does to the shape what the verdict does, or else a level has divided by zero
(`judge_of_moves`, `judge_of_fails`). The main statement is
`Expression.evaluate_malformed_agrees`: of two evaluations of the same lexemes, in whatever
environments, both have the same syntax error or none, unless one is cut short by a division by
zero.
-/

namespace Qualifier

/-! ### The verdict -/

namespace Stack

/-- What a lexeme does to a stack whose values do not matter. -/
def judge (limit : Nat) (stack : Stack) : Lexeme → Except SyntaxError Stack
  | .operand _ span => .ok (stack.append [.operand .null none span.start])
  | .operator op span => .ok (stack.append [.operator op span.start])
  | .opening span =>
    if limit ≤ stack.frames.length then .error (.nestingTooDeep limit span.start)
    else .ok ⟨stack.base, ⟨span.start, []⟩ :: stack.frames⟩
  | .closing span =>
    match stack.frames with
    | [] => .error (.unmatchedClosing span.start)
    | frame :: below =>
      (frame.queue.check frame.position).map fun _ ↦
        append [.operand .null none frame.position] ⟨stack.base, below⟩

/-- What is left to check once all lexemes have been read. -/
def judgeEnd (stack : Stack) : Except SyntaxError Unit :=
  match stack.frames with
  | frame :: _ => .error (.unclosedOpening frame.position)
  | [] => stack.base.check 0

end Stack

/-- The fault in the shape of an expression, if it has one. -/
def Expression.verdict (limit : Nat) (lexemes : List Lexeme) : Except SyntaxError Unit := do
  let stack ← lexemes.foldlM (Stack.judge limit) .empty
  stack.judgeEnd

/-! ### Shapes -/

/-- The entry without the value and the spelling of an operand. -/
def Entry.shape : Entry → Entry
  | .operand _ _ position => .operand .null none position
  | .operator op position => .operator op position

/-- The frame without values. -/
def Frame.shape (frame : Frame) : Frame :=
  ⟨frame.position, frame.queue.map Entry.shape⟩

/-- The stack without values. -/
def Stack.shape (stack : Stack) : Stack :=
  ⟨stack.base.map Entry.shape, stack.frames.map Frame.shape⟩

/-- The check of a queue attends to its shape alone. -/
theorem Queue.checkFrom_shape (queue : Queue) (atEnd : SyntaxError) :
    checkFrom atEnd (queue.map Entry.shape) = checkFrom atEnd queue := by
  fun_induction checkFrom atEnd queue with
  | case1 => rfl
  | case2 => rfl
  | case3 => rfl
  | case4 => rfl
  | case5 _ _ _ _ _ _ _ ih => exact ih

theorem Queue.check_shape (queue : Queue) (position : Nat) :
    check (queue.map Entry.shape) position = queue.check position :=
  checkFrom_shape queue _

/-- A level that fails has the fault of its shape, or divides by zero. -/
theorem Queue.Fails.shape {queue : Queue} {position : Nat} {e : Error}
    (h : queue.Fails position e) :
    (∃ place, e = .failed (.divisionByZero (some place))) ∨
      ∃ fault, check (queue.map Entry.shape) position = .error fault ∧ e = .malformed fault := by
  cases h with
  | @malformed fault hcheck =>
    have hshape : check (queue.map Entry.shape) position = .error fault := by
      rw [check_shape, hcheck]
    exact .inr ⟨fault, hshape, rfl⟩
  | @failed place => exact .inl ⟨place, rfl⟩

namespace Stack

theorem shape_append (stack : Stack) (entries : Queue) :
    (stack.append entries).shape = stack.shape.append (entries.map Entry.shape) := by
  obtain ⟨base, frames⟩ := stack
  cases frames <;> simp [append, shape, Frame.shape]

variable {σ : Type} {env : Environment σ} {limit : Nat} {stack stack' : Stack}
  {progress progress' : Progress σ} {lexeme : Lexeme}

/-- A lexeme that does not fail has no fault, and leaves a stack of the shape that it should. -/
theorem judge_of_moves (h : Moves env limit stack progress lexeme stack' progress') :
    stack.shape.judge limit lexeme = .ok stack'.shape := by
  cases h with
  | operand =>
    rw [judge, shape_append]
    rfl
  | operator =>
    rw [judge, shape_append]
    rfl
  | opening base frames _ span hlimit =>
    have hroom : ¬limit ≤ (shape ⟨base, frames⟩).frames.length := by
      simp only [shape, List.length_map]
      omega
    rw [judge, if_neg hroom]
    rfl
  | closing base frame below _ span hfinish =>
    have hcheck : Queue.check (frame.queue.map Entry.shape) frame.position = .ok () := by
      rw [Queue.check_shape, Expression.check_of_finish hfinish]
    rw [shape_append]
    show (Queue.check (frame.queue.map Entry.shape) frame.position).map _ = _
    rw [hcheck]
    rfl

/-- A lexeme that fails has the fault that it should, or a division by zero has come before it. -/
theorem judge_of_fails {e : Error} (h : Fails limit stack progress lexeme e progress') :
    (∃ place, e = .failed (.divisionByZero (some place))) ∨
      ∃ fault, stack.shape.judge limit lexeme = .error fault ∧ e = .malformed fault := by
  cases h with
  | opening base frames _ span hlimit =>
    have hfull : limit ≤ (shape ⟨base, frames⟩).frames.length := by
      simpa only [shape, List.length_map] using hlimit
    refine .inr ⟨_, ?_, rfl⟩
    rw [judge, if_pos hfull]
  | unmatched => exact .inr ⟨_, rfl, rfl⟩
  | closing base frame below _ span hfinish =>
    obtain hzero | ⟨fault, hcheck, rfl⟩ := (Expression.fails_of_finish hfinish).shape
    · exact .inl hzero
    · have hjudge : (shape ⟨base, frame :: below⟩).judge limit (.closing span) = .error fault := by
        show (Queue.check (frame.queue.map Entry.shape) frame.position).map _ = _
        rw [hcheck]
        rfl
      exact .inr ⟨fault, hjudge, rfl⟩

/-- The stack has the shape that the lexemes read so far give it, and each lexeme keeps this. -/
theorem keeps_shape : Keeps env limit fun read stack (_ : Progress σ) ↦
    read.foldlM (judge limit) empty = .ok stack.shape := by
  intro read stack progress lexeme stack' progress' h hmove
  rw [List.foldlM_append, h]
  show stack.shape.judge limit lexeme >>= pure = _
  rw [bind_pure, judge_of_moves hmove]

/-- Once all lexemes have been read, a stack with a value has no fault, -/
theorem judgeEnd_of_conclude {value : Value}
    (h : (stack.conclude : Evaluation σ Value).run progress = (.ok value, progress')) :
    stack.shape.judgeEnd = .ok () := by
  obtain ⟨base, frames⟩ := stack
  cases frames with
  | cons => cases h
  | nil =>
    rw [conclude, Reduction.run_within] at h
    obtain ⟨hvalue, -⟩ := Prod.mk.inj h
    have hcheck := Expression.check_of_conclude (Prod.ext hvalue rfl)
    exact (Queue.check_shape base 0).trans hcheck

/-- and a stack without one has the fault that it should, or divides by zero. -/
theorem judgeEnd_of_conclude_error {e : Error}
    (h : (stack.conclude : Evaluation σ Value).run progress = (.error e, progress')) :
    (∃ place, e = .failed (.divisionByZero (some place))) ∨
      ∃ fault, stack.shape.judgeEnd = .error fault ∧ e = .malformed fault := by
  obtain ⟨base, frames⟩ := stack
  cases frames with
  | cons frame below =>
    cases h
    exact .inr ⟨_, rfl, rfl⟩
  | nil =>
    rw [conclude, Reduction.run_within] at h
    obtain ⟨hvalue, -⟩ := Prod.mk.inj h
    exact (Expression.fails_of_conclude (Prod.ext hvalue rfl)).shape

end Stack

/-! ### Evaluations -/

/-- The answer of an evaluation confirms a verdict, unless the evaluation divides by zero. -/
inductive Expression.Confirms : Except SyntaxError Unit → Except Error Outcome → Prop
  /-- After a division by zero nothing is known. -/
  | divided (verdict : Except SyntaxError Unit) (place : Nat) :
    Confirms verdict (.error (.failed (.divisionByZero (some place))))
  /-- An expression without a fault has an outcome. -/
  | accepted (outcome : Outcome) : Confirms (.ok ()) (.ok outcome)
  /-- The fault of any other expression is the answer. -/
  | malformed (fault : SyntaxError) : Confirms (.error fault) (.error (.malformed fault))

namespace Expression

variable {σ τ : Type} (env : Environment σ) (limit : Nat) (lexemes : List Lexeme)

/-- An evaluation confirms the verdict, unless it divides by zero. -/
theorem evaluate_confirms (label : String) (world : σ) :
    Confirms (verdict limit lexemes) (evaluate env limit lexemes label world).answer := by
  obtain ⟨answer, progress, hpasses, hreport⟩ := evaluate_passes env limit lexemes label world
  rw [hreport]
  have hempty : [].foldlM (Stack.judge limit) Stack.empty = .ok Stack.empty.shape := rfl
  cases hpasses with
  | @atLexeme before lexeme after reached _ _ e hread hstep =>
    have hshape : before.foldlM (Stack.judge limit) .empty = .ok reached.shape :=
      Stack.keeps_shape.foldlM hempty hread
    obtain ⟨place, rfl⟩ | ⟨fault, hjudge, rfl⟩ := Stack.judge_of_fails (Stack.fails_of_step hstep)
    · exact .divided _ place
    · have hverdict : verdict limit (before ++ lexeme :: after) = .error fault := by
        rw [verdict, List.foldlM_append, hshape]
        show reached.shape.judge limit lexeme >>= after.foldlM (Stack.judge limit) >>= _ = _
        rw [hjudge]
        rfl
      rw [hverdict]
      exact .malformed fault
  | @atEnd _ stack _ _ _ hread hconclude =>
    have hshape : lexemes.foldlM (Stack.judge limit) .empty = .ok stack.shape :=
      Stack.keeps_shape.foldlM hempty hread
    have hverdict : verdict limit lexemes = stack.shape.judgeEnd := by
      rw [verdict, hshape]
      rfl
    rw [hverdict]
    cases answer with
    | ok value =>
      rw [Stack.judgeEnd_of_conclude hconclude]
      exact .accepted _
    | error e =>
      obtain ⟨place, rfl⟩ | ⟨fault, hend, rfl⟩ := Stack.judgeEnd_of_conclude_error hconclude
      · exact .divided _ place
      · rw [hend]
        exact .malformed fault

/-- If an evaluation has a syntax error, then so has every other evaluation of the same lexemes, and
it is the same one; if an evaluation has an outcome, then so has every other. In both cases the
other one can fail with a division by zero instead, and in no other way. -/
theorem evaluate_malformed_agrees (env' : Environment τ) (label label' : String) (world : σ)
    (world' : τ) :
    let answer := (evaluate env limit lexemes label world).answer
    let answer' := (evaluate env' limit lexemes label' world').answer
    (∀ fault, answer = .error (.malformed fault) →
      answer' = .error (.malformed fault) ∨
        ∃ place, answer' = .error (.failed (.divisionByZero (some place)))) ∧
    (∀ outcome, answer = .ok outcome →
      (∃ outcome', answer' = .ok outcome') ∨
        ∃ place, answer' = .error (.failed (.divisionByZero (some place)))) := by
  intro answer answer'
  have hfirst : Confirms (verdict limit lexemes) answer :=
    evaluate_confirms env limit lexemes label world
  have hsecond : Confirms (verdict limit lexemes) answer' :=
    evaluate_confirms env' limit lexemes label' world'
  -- the verdict is all that the two answers have in common
  generalize verdict limit lexemes = common at hfirst hsecond
  generalize answer' = second at hsecond ⊢
  constructor
  · intro fault hfault
    rw [hfault] at hfirst
    cases hfirst
    cases hsecond with
    | divided _ place => exact .inr ⟨place, rfl⟩
    | malformed => exact .inl rfl
  · intro outcome houtcome
    rw [houtcome] at hfirst
    cases hfirst
    cases hsecond with
    | divided _ place => exact .inr ⟨place, rfl⟩
    | accepted outcome' => exact .inl ⟨outcome', rfl⟩

/-- Where `@d` is true, `(6 / @d) )` is reported at its last parenthesis; where `@d` is false, the
division comes before that. -/
theorem evaluate_malformed_agrees_unless_divided :
    let lexemes : List Lexeme := [.opening ⟨0, 1⟩, .operand "6" ⟨1, 2⟩,
      .operator (.arithmetic .divide) ⟨3, 4⟩, .operand "@d" ⟨5, 7⟩, .closing ⟨7, 8⟩,
      .closing ⟨9, 10⟩]
    let env (d : Bool) : Environment Unit :=
      ⟨fun _ ↦ none, fun _ ↦ some fun world ↦ (.bool d, world)⟩
    let answer (d : Bool) := (evaluate (env d) 1 lexemes "" ()).answer
    answer true = .error (.malformed (.unmatchedClosing 9)) ∧
      answer false ≠ .error (.malformed (.unmatchedClosing 9)) ∧
      ∃ place, answer false = .error (.failed (.divisionByZero (some place))) := by
  intro lexemes env answer
  have htrue : answer true = .error (.malformed (.unmatchedClosing 9)) := by
    show (evaluate (env true) 1 lexemes "" ()).answer = _
    rw [evaluate, value_eq_pass]
    rfl
  have hfalse : answer false ≠ .error (.malformed (.unmatchedClosing 9)) := by
    show (evaluate (env false) 1 lexemes "" ()).answer ≠ _
    rw [evaluate, value_eq_pass]
    intro h
    cases h
  have hagrees := (evaluate_malformed_agrees (env true) 1 lexemes (env false) "" "" () ()).1
  exact ⟨htrue, hfalse, (hagrees _ htrue).resolve_left hfalse⟩

end Expression

end Qualifier
