import Qualifier.Expression
import Qualifier.Proofs.Run

/-!
# Reading with a stack of frames

The value of an expression computed without recursion: one pass over the lexemes from left to
right, with a stack of the parentheses that are still open. Each frame of the stack holds the
position of its parenthesis and the queue gathered since; below all frames lies the queue of the
outermost level, which no parenthesis opened.

`Stack.step` says what one lexeme does to the stack and `Expression.pass` folds it over all of them.
`Stack.Moves` and `Stack.Fails` list what a lexeme can come to, and what each move keeps
(`Stack.Keeps`) holds wherever the pass gets to.

The recursion `Expression.group` keeps the open levels on the call stack instead and hands back the
lexemes behind each group. `Stack.resume_frame` is the simulation: to go on with a frame on top is
to call the recursion for that frame and then to go on below it with the value that it returned.
-/

namespace Qualifier

/-- A level of parentheses that is still open. -/
structure Frame where
  /-- Where the parenthesis that opened it stands. -/
  position : Nat
  /-- What has been gathered in it. -/
  queue : Queue

/-- All levels that are still open. -/
structure Stack where
  /-- The outermost level. -/
  base : Queue
  /-- The levels within parentheses, the innermost first. -/
  frames : List Frame

namespace Stack

/-- The stack before the first lexeme. -/
def empty : Stack := ⟨[], []⟩

/-- The stack with entries appended to the innermost level. -/
def append (entries : Queue) : Stack → Stack
  | ⟨base, []⟩ => ⟨base ++ entries, []⟩
  | ⟨base, frame :: below⟩ => ⟨base, ⟨frame.position, frame.queue ++ entries⟩ :: below⟩

theorem append_append (stack : Stack) (first second : Queue) :
    (stack.append first).append second = stack.append (first ++ second) := by
  obtain ⟨base, frames⟩ := stack
  cases frames <;> simp [append]

theorem length_frames_append (stack : Stack) (entries : Queue) :
    (stack.append entries).frames.length = stack.frames.length := by
  obtain ⟨base, frames⟩ := stack
  cases frames <;> rfl

variable {σ : Type} (env : Environment σ) (limit : Nat)

/-- What a lexeme does to the stack. -/
def step (stack : Stack) : Lexeme → Evaluation σ Stack
  | .operand text span => do
    let operand := Operand.ofText text
    let value ← modifyGet (operand.lookUp env)
    return stack.append [.operand value operand.literal? span.start]
  | .operator op span => return stack.append [.operator op span.start]
  | .opening span =>
    if limit ≤ stack.frames.length then throw (.malformed (.nestingTooDeep limit span.start))
    else return ⟨stack.base, ⟨span.start, []⟩ :: stack.frames⟩
  | .closing span =>
    match stack.frames with
    | [] => throw (.malformed (.unmatchedClosing span.start))
    | frame :: below => do
      let value ← (Expression.finish frame.queue frame.position).within
      return append [.operand value none frame.position] ⟨stack.base, below⟩

/-- The value once all lexemes have been read. -/
def conclude (stack : Stack) : Evaluation σ Value :=
  match stack.frames with
  | frame :: _ => throw (.malformed (.unclosedOpening frame.position))
  | [] => (Expression.conclude stack.base).within

/-- Reads the lexemes that are left and concludes. -/
def resume (stack : Stack) (lexemes : List Lexeme) : Evaluation σ Value := do
  let stack ← lexemes.foldlM (step env limit) stack
  stack.conclude

end Stack

/-- The value of a whole expression, by one pass over its lexemes. -/
def Expression.pass {σ : Type} (env : Environment σ) (limit : Nat) (lexemes : List Lexeme) :
    Evaluation σ Value :=
  Stack.empty.resume env limit lexemes

namespace Stack

variable {σ : Type} (env : Environment σ) (limit : Nat)

theorem resume_nil (stack : Stack) : stack.resume env limit [] = stack.conclude := by
  rw [resume, List.foldlM_nil, pure_bind]

theorem resume_cons (stack : Stack) (lexeme : Lexeme) (rest : List Lexeme) :
    stack.resume env limit (lexeme :: rest) =
      (do
        let stack ← stack.step env limit lexeme
        stack.resume env limit rest) := by
  simp only [resume, List.foldlM_cons, bind_assoc]

/-! ### What a lexeme can do -/

/-- What a lexeme makes of the stack and of the progress, if it does not fail. -/
inductive Moves : Stack → Progress σ → Lexeme → Stack → Progress σ → Prop
  /-- An operand is looked up and appended. -/
  | operand (stack : Stack) (progress : Progress σ) (text : String) (span : Span) :
    Moves stack progress (.operand text span)
      (stack.append [.operand ((Operand.ofText text).lookUp env progress).1
        (Operand.ofText text).literal? span.start])
      ((Operand.ofText text).lookUp env progress).2
  /-- An operator is appended. -/
  | operator (stack : Stack) (progress : Progress σ) (op : Operator) (span : Span) :
    Moves stack progress (.operator op span) (stack.append [.operator op span.start]) progress
  /-- An opening parenthesis opens a level. -/
  | opening (base : Queue) (frames : List Frame) (progress : Progress σ) (span : Span)
    (h : frames.length < limit) :
    Moves ⟨base, frames⟩ progress (.opening span) ⟨base, ⟨span.start, []⟩ :: frames⟩ progress
  /-- A closing parenthesis ends the innermost level and appends its value to the one below. -/
  | closing (base : Queue) (frame : Frame) (below : List Frame) (progress : Progress σ)
    (span : Span) {value : Value} {ledger : Ledger}
    (h : (Expression.finish frame.queue frame.position).run progress.toLedger =
      (.ok value, ledger)) :
    Moves ⟨base, frame :: below⟩ progress (.closing span)
      (append [.operand value none frame.position] ⟨base, below⟩)
      { progress with toLedger := ledger }

/-- How a lexeme can fail, and with what progress. -/
inductive Fails : Stack → Progress σ → Lexeme → Error → Progress σ → Prop
  /-- An opening parenthesis can be one too many. -/
  | opening (base : Queue) (frames : List Frame) (progress : Progress σ) (span : Span)
    (h : limit ≤ frames.length) :
    Fails ⟨base, frames⟩ progress (.opening span) (.malformed (.nestingTooDeep limit span.start))
      progress
  /-- A closing parenthesis can find no level to end. -/
  | unmatched (base : Queue) (progress : Progress σ) (span : Span) :
    Fails ⟨base, []⟩ progress (.closing span) (.malformed (.unmatchedClosing span.start)) progress
  /-- The level that a closing parenthesis ends can have no value. -/
  | closing (base : Queue) (frame : Frame) (below : List Frame) (progress : Progress σ)
    (span : Span) {e : Error} {ledger : Ledger}
    (h : (Expression.finish frame.queue frame.position).run progress.toLedger =
      (.error e, ledger)) :
    Fails ⟨base, frame :: below⟩ progress (.closing span) e { progress with toLedger := ledger }

section

variable {env limit} {stack stack' : Stack} {progress progress' : Progress σ} {lexeme : Lexeme}

theorem moves_of_step (h : (stack.step env limit lexeme).run progress = (.ok stack', progress')) :
    Moves env limit stack progress lexeme stack' progress' := by
  obtain ⟨base, frames⟩ := stack
  cases lexeme with
  | operand text span =>
    cases h
    exact .operand _ _ text span
  | operator op span =>
    cases h
    exact .operator _ _ op span
  | opening span =>
    rw [step] at h
    split at h
    · cases h
    · next hlimit =>
      cases h
      exact .opening base frames _ span (Nat.lt_of_not_le hlimit)
  | closing span =>
    cases frames with
    | nil => cases h
    | cons frame below =>
      obtain ⟨value, after, hfinish, happend⟩ := run_bind_eq_ok h
      rw [Reduction.run_within] at hfinish
      obtain ⟨hvalue, rfl⟩ := Prod.mk.inj hfinish
      cases happend
      exact .closing base frame below _ span (Prod.ext hvalue rfl)

theorem fails_of_step {e : Error}
    (h : (stack.step env limit lexeme).run progress = (.error e, progress')) :
    Fails limit stack progress lexeme e progress' := by
  obtain ⟨base, frames⟩ := stack
  cases lexeme with
  | operand text span => cases h
  | operator op span => cases h
  | opening span =>
    rw [step] at h
    split at h
    · next hlimit =>
      cases h
      exact .opening base frames _ span hlimit
    · cases h
  | closing span =>
    cases frames with
    | nil =>
      cases h
      exact .unmatched base _ span
    | cons frame below =>
      obtain hfinish | ⟨value, after, -, happend⟩ := run_bind_eq_error h
      · rw [Reduction.run_within] at hfinish
        obtain ⟨herror, rfl⟩ := Prod.mk.inj hfinish
        exact .closing base frame below _ span (Prod.ext herror rfl)
      · cases happend

end

/-! ### What every lexeme keeps -/

/-- Each lexeme keeps a property of what has been read, of the stack and of the progress. -/
def Keeps (Holds : List Lexeme → Stack → Progress σ → Prop) : Prop :=
  ∀ {read stack progress lexeme stack' progress'}, Holds read stack progress →
    Moves env limit stack progress lexeme stack' progress' →
      Holds (read ++ [lexeme]) stack' progress'

/-- What each lexeme keeps, the whole pass keeps. -/
theorem Keeps.foldlM {env : Environment σ} {limit : Nat}
    {Holds : List Lexeme → Stack → Progress σ → Prop} {read lexemes : List Lexeme}
    {stack stack' : Stack} {progress progress' : Progress σ} (hkeeps : Keeps env limit Holds)
    (h : Holds read stack progress)
    (hrun : (lexemes.foldlM (step env limit) stack).run progress = (.ok stack', progress')) :
    Holds (read ++ lexemes) stack' progress' := by
  refine run_foldlM_induction (fun before ↦ Holds (read ++ before)) ?_ ?_ hrun
  · intro before lexeme stack stack' progress progress' h hstep
    rw [← List.append_assoc]
    exact hkeeps h (moves_of_step hstep)
  · rwa [List.append_nil]

/-! ### The recursion -/

/-- A frame is a call: going on with a frame on top reads that level by recursion, and then goes on
below it with the value of the level. -/
theorem resume_frame (frame : Frame) (below : List Frame) (base : Queue) (lexemes : List Lexeme)
    (n : Nat) (bound : lexemes.length ≤ n) :
    resume env limit ⟨base, frame :: below⟩ lexemes =
      (do
        let (value, after) ← Expression.group env limit n (below.length + 1) (some frame.position)
          frame.queue.reverse lexemes bound
        resume env limit (append [.operand value none frame.position] ⟨base, below⟩)
          after.val) := by
  -- the recursion ends at any distance into the list, so the induction is on its length
  induction h : lexemes.length using Nat.strongRecOn generalizing frame below lexemes n with
  | ind k ih =>
    cases lexemes with
    | nil =>
      rw [resume_nil, Expression.group]
      rfl
    | cons lexeme rest =>
      cases lexeme with
      | operand text span =>
        rw [resume_cons, Expression.group]
        simp only [step, append, bind_assoc, pure_bind]
        congr 1
        funext value
        rw [ih rest.length (by simp [← h]) _ _ _ _ _ rfl, List.reverse_append]
        rfl
      | operator op span =>
        rw [resume_cons, Expression.group]
        simp only [step, append, pure_bind]
        rw [ih rest.length (by simp [← h]) _ _ _ _ _ rfl, List.reverse_append]
        rfl
      | opening span =>
        rw [resume_cons, Expression.group]
        simp only [step, List.length_cons]
        split
        · rfl
        · simp only [pure_bind, bind_assoc]
          rw [ih rest.length (by simp [← h]) _ _ _ _ (Nat.le_refl _) rfl]
          congr 1
          funext group
          obtain ⟨value, after⟩ := group
          have shorter := after.property
          simp only [List.length_cons] at h
          simp only [append]
          rw [ih after.val.length (by omega) _ _ _ _ _ rfl, List.reverse_append]
          rfl
      | closing span =>
        rw [resume_cons, Expression.group]
        simp only [step, bind_assoc, pure_bind, List.reverse_reverse]

/-- The outermost level is the outermost call. -/
theorem resume_base (base : Queue) (lexemes : List Lexeme) (n : Nat) (bound : lexemes.length ≤ n) :
    resume env limit ⟨base, []⟩ lexemes =
      (do
        let (value, _) ← Expression.group env limit n 0 none base.reverse lexemes bound
        return value) := by
  induction h : lexemes.length using Nat.strongRecOn generalizing base lexemes n with
  | ind k ih =>
    cases lexemes with
    | nil =>
      rw [resume_nil, Expression.group]
      simp only [conclude, List.reverse_reverse, bind_assoc, pure_bind, bind_pure]
    | cons lexeme rest =>
      cases lexeme with
      | operand text span =>
        rw [resume_cons, Expression.group]
        simp only [step, append, bind_assoc, pure_bind]
        congr 1
        funext value
        rw [ih rest.length (by simp [← h]) _ _ _ _ rfl, List.reverse_append]
        rfl
      | operator op span =>
        rw [resume_cons, Expression.group]
        simp only [step, append, pure_bind]
        rw [ih rest.length (by simp [← h]) _ _ _ _ rfl, List.reverse_append]
        rfl
      | opening span =>
        rw [resume_cons, Expression.group]
        simp only [step, List.length_nil]
        split
        · rfl
        · simp only [pure_bind, bind_assoc]
          rw [resume_frame env limit _ _ _ _ _ (Nat.le_refl _)]
          congr 1
          funext group
          obtain ⟨value, after⟩ := group
          have shorter := after.property
          simp only [List.length_cons] at h
          simp only [append]
          rw [ih after.val.length (by omega) _ _ _ _ rfl, List.reverse_append]
          rfl
      | closing span =>
        rw [resume_cons, Expression.group]
        rfl

end Stack

namespace Expression

variable {σ : Type} (env : Environment σ) (limit : Nat) (lexemes : List Lexeme)

/-- The recursion and the pass are one computation. -/
theorem value_eq_pass : value env limit lexemes = pass env limit lexemes :=
  (Stack.resume_base env limit [] lexemes _ (Nat.le_refl _)).symm

/-- How the pass over the lexemes of an expression goes: what it answers, and how far it gets. -/
inductive Passes (start : Progress σ) : List Lexeme → Except Error Value → Progress σ → Prop
  /-- All lexemes are read, and the stack that they leave has a value or not. -/
  | atEnd {lexemes : List Lexeme} {stack : Stack} {progress final : Progress σ}
    {answer : Except Error Value}
    (hread : (lexemes.foldlM (Stack.step env limit) .empty).run start = (.ok stack, progress))
    (hconclude : stack.conclude.run progress = (answer, final)) :
    Passes start lexemes answer final
  /-- A lexeme fails, after all before it have been read. -/
  | atLexeme {before : List Lexeme} {lexeme : Lexeme} (after : List Lexeme) {stack : Stack}
    {progress final : Progress σ} {e : Error}
    (hread : (before.foldlM (Stack.step env limit) .empty).run start = (.ok stack, progress))
    (hstep : (stack.step env limit lexeme).run progress = (.error e, final)) :
    Passes start (before ++ lexeme :: after) (.error e) final

/-- What can be told of a progress that ends with an answer. -/
def report (answer : Except Error Value) (progress : Progress σ) : Report σ where
  answer := answer.map fun value ↦ ⟨value, progress.label⟩
  trail := progress.trail.toList
  world := progress.world

variable {env limit lexemes} in
/-- The report of an evaluation is that of the pass. -/
theorem evaluate_eq_report {label : String} {world : σ} {answer : Except Error Value}
    {progress : Progress σ}
    (h : (pass env limit lexemes).run ⟨⟨label, #[]⟩, world⟩ = (answer, progress)) :
    evaluate env limit lexemes label world = report answer progress := by
  rw [evaluate, value_eq_pass, h]
  rfl

/-- It tells how the pass goes. -/
theorem evaluate_passes (label : String) (world : σ) :
    ∃ answer progress, Passes env limit ⟨⟨label, #[]⟩, world⟩ lexemes answer progress ∧
      evaluate env limit lexemes label world = report answer progress := by
  rcases hrun : (pass env limit lexemes).run ⟨⟨label, #[]⟩, world⟩ with ⟨answer, progress⟩
  refine ⟨answer, progress, ?_, evaluate_eq_report hrun⟩
  cases answer with
  | ok value =>
    obtain ⟨stack, between, hread, hconclude⟩ := run_bind_eq_ok hrun
    exact .atEnd hread hconclude
  | error e =>
    obtain hfold | ⟨stack, between, hread, hconclude⟩ := run_bind_eq_error hrun
    · obtain ⟨before, lexeme, after, stack, between, rfl, hread, hstep⟩ := run_foldlM_eq_error hfold
      exact .atLexeme after hread hstep
    · exact .atEnd hread hconclude

/-- Evaluates the lexemes of an expression that starts out with a label, by one pass over them. -/
def evaluateByPass (label : String) (world : σ) : Report σ :=
  let start : Progress σ := { label, trail := #[], world }
  let (answer, progress) := (pass env limit lexemes).run start
  { answer := answer.map fun value ↦ ⟨value, progress.label⟩
    trail := progress.trail.toList
    world := progress.world }

/-- An expression has the outcome or the error of the pass over its lexemes, and evaluating it makes
the calls of the pass, leaves its trail and leaves the world in the same state. -/
theorem evaluate_eq_pass (label : String) (world : σ) :
    evaluate env limit lexemes label world = evaluateByPass env limit lexemes label world ∧
      (evaluate env limit lexemes label world).calls =
        (evaluateByPass env limit lexemes label world).calls := by
  have h : evaluate env limit lexemes label world =
      evaluateByPass env limit lexemes label world := by
    rw [evaluate, value_eq_pass]
    rfl
  exact ⟨h, congrArg Report.calls h⟩

end Expression

end Qualifier
