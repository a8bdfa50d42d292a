import Qualifier.Proofs.Outcome

/-!
# What is accepted

The lists of lexemes that have a value are the expressions that nest no deeper than the limit, less
those that divide by zero. One direction is the meaning of expressions
(`Expression.evaluate_lexemes`). The other follows the pass: `Gathers` relates the lexemes of a
level that have been read to the queue gathered from them, `Stack.Gathered` says so of every open
level at once, and each lexeme keeps it. A queue is well formed only if the lexemes it was gathered
from are an expression (`Gathers.isExpression`), so a level that ends well has been one.
-/

namespace Qualifier

/-- The queue is gathered from the lexemes: its operands from primaries in which parentheses nest at
most so many levels deep, and its operators from operators. -/
inductive Gathers (limit : Nat) : List Lexeme → Queue → Prop
  /-- Nothing is gathered from nothing. -/
  | nil : Gathers limit [] []
  /-- An operand is gathered from a primary. -/
  | operand {primary rest : List Lexeme} {queue : Queue} (value : Value) (literal : Option String)
    (position : Nat) (h : IsPrimary limit primary) (hrest : Gathers limit rest queue) :
    Gathers limit (primary ++ rest) (.operand value literal position :: queue)
  /-- An operator is gathered from an operator. -/
  | operator {rest : List Lexeme} {queue : Queue} (op : Operator) (span : Span) (position : Nat)
    (hrest : Gathers limit rest queue) :
    Gathers limit (.operator op span :: rest) (.operator op position :: queue)

namespace Gathers

variable {limit : Nat} {lexemes : List Lexeme} {queue : Queue}

theorem append {lexemes' : List Lexeme} {queue' : Queue} (h : Gathers limit lexemes queue)
    (h' : Gathers limit lexemes' queue') :
    Gathers limit (lexemes ++ lexemes') (queue ++ queue') := by
  induction h with
  | nil => exact h'
  | operand value literal position hprimary _ ih =>
    rw [List.append_assoc]
    exact .operand value literal position hprimary ih
  | operator op span position _ ih => exact .operator op span position ih

/-- A well-formed queue has been gathered from an expression. -/
theorem isExpression {atEnd : SyntaxError} (h : Gathers limit lexemes queue)
    (hcheck : queue.checkFrom atEnd = .ok ()) : IsExpression limit lexemes := by
  fun_induction queue.checkFrom atEnd generalizing lexemes with
  | case1 => cases hcheck
  | case2 => cases hcheck
  | case3 =>
    obtain _ | ⟨_, _, _, hprimary, hrest⟩ := h
    cases hrest
    rw [List.append_nil]
    exact .one hprimary
  | case4 => cases hcheck
  | case5 _ _ _ _ _ _ _ ih =>
    obtain _ | ⟨_, _, _, hprimary, hrest⟩ := h
    obtain _ | _ | ⟨_, span, _, hrest⟩ := hrest
    exact .more _ span hprimary (ih hrest hcheck)

end Gathers

namespace Stack

/-- Every open level is gathered from the lexemes that follow its parenthesis. A level may nest as
deep as the limit leaves room for below it. -/
def Gathered (limit : Nat) (base : Queue) : List Frame → List Lexeme → Prop
  | [], read => Gathers limit read base
  | frame :: below, read =>
    ∃ before span inside, read = before ++ .opening span :: inside ∧
      below.length < limit ∧ Gathered limit base below before ∧
      Gathers (limit - (below.length + 1)) inside frame.queue

variable {σ : Type} {env : Environment σ} {limit : Nat} {stack stack' : Stack}
  {progress progress' : Progress σ} {read : List Lexeme}

theorem Gathered.empty : Gathered limit Stack.empty.base Stack.empty.frames [] :=
  Gathers.nil

theorem Gathered.append {lexemes : List Lexeme} {entries : Queue}
    (h : Gathered limit stack.base stack.frames read)
    (hentries : Gathers (limit - stack.frames.length) lexemes entries) :
    Gathered limit (stack.append entries).base (stack.append entries).frames (read ++ lexemes) := by
  obtain ⟨base, frames⟩ := stack
  cases frames with
  | nil => exact Gathers.append h hentries
  | cons frame below =>
    obtain ⟨before, span, inside, rfl, hlt, hbelow, hinside⟩ := h
    exact ⟨before, span, inside ++ lexemes, by simp, hlt, hbelow, hinside.append hentries⟩

/-- An opening parenthesis opens a level that is gathered from nothing yet. -/
theorem Gathered.opening {base : Queue} {frames : List Frame} (h : Gathered limit base frames read)
    (span : Span) (hlimit : frames.length < limit) :
    Gathered limit base (⟨span.start, []⟩ :: frames) (read ++ [.opening span]) :=
  ⟨read, span, [], rfl, hlimit, h, .nil⟩

/-- A closing parenthesis makes a primary of a well-formed level. -/
theorem Gathered.closing {base : Queue} {frame : Frame} {below : List Frame}
    (h : Gathered limit base (frame :: below) read)
    (hcheck : frame.queue.check frame.position = .ok ()) (value : Value) (span : Span) :
    let closed := Stack.append [.operand value none frame.position] ⟨base, below⟩
    Gathered limit closed.base closed.frames (read ++ [.closing span]) := by
  obtain ⟨before, opening, inside, rfl, hlt, hbelow, hinside⟩ := h
  -- the group is a primary of the level below, one level deeper than its body
  have hlevel : limit - below.length = limit - (below.length + 1) + 1 := by omega
  have hprimary : IsPrimary (limit - below.length)
      (.opening opening :: (inside ++ [.closing span])) := by
    rw [hlevel]
    exact .group opening span (hinside.isExpression hcheck)
  have hlower : Gathered limit (Stack.mk base below).base (Stack.mk base below).frames before :=
    hbelow
  have hnext := hlower.append (.operand value none frame.position hprimary .nil)
  simpa using hnext

/-- Each lexeme keeps the levels gathered from what has been read. -/
theorem Gathered.step {lexeme : Lexeme} (h : Gathered limit stack.base stack.frames read)
    (hmove : Moves env limit stack progress lexeme stack' progress') :
    Gathered limit stack'.base stack'.frames (read ++ [lexeme]) := by
  cases hmove with
  | operand _ _ text span => exact h.append (.operand _ _ _ (.operand text span) .nil)
  | operator _ _ op span => exact h.append (.operator op span _ .nil)
  | opening base frames _ span hlimit => exact Gathered.opening h span hlimit
  | closing base frame below _ span hfinish =>
    exact Gathered.closing h (Expression.check_of_finish hfinish) _ span

/-- So does the whole pass. -/
theorem Gathered.foldlM {lexemes : List Lexeme} (h : Gathered limit stack.base stack.frames read)
    (hrun : (lexemes.foldlM (Stack.step env limit) stack).run progress = (.ok stack', progress')) :
    Gathered limit stack'.base stack'.frames (read ++ lexemes) := by
  have hkeeps : Keeps env limit
      fun read stack (_ : Progress σ) ↦ Gathered limit stack.base stack.frames read :=
    Gathered.step
  exact hkeeps.foldlM h hrun

/-- A stack with a value has no level open but the outermost, and that is an expression. -/
theorem Gathered.conclude {value : Value} (h : Gathered limit stack.base stack.frames read)
    (hrun : (stack.conclude : Evaluation σ Value).run progress = (.ok value, progress')) :
    IsExpression limit read := by
  obtain ⟨base, frames⟩ := stack
  cases frames with
  | cons => cases hrun
  | nil =>
    rw [Stack.conclude, Reduction.run_within] at hrun
    obtain ⟨hvalue, -⟩ := Prod.mk.inj hrun
    have hbase : Gathers limit read base := h
    exact hbase.isExpression (Expression.check_of_conclude (Prod.ext hvalue rfl))

end Stack

namespace Expression

variable {σ : Type} (env : Environment σ) (limit : Nat) (lexemes : List Lexeme) (label : String)
  (world : σ)

/-- Only expressions have an outcome. -/
theorem isExpression_of_evaluate {outcome : Outcome}
    (h : (evaluate env limit lexemes label world).answer = .ok outcome) :
    IsExpression limit lexemes := by
  obtain ⟨answer, progress, hpasses, hreport⟩ := evaluate_passes env limit lexemes label world
  rw [hreport] at h
  cases hpasses with
  | atLexeme => cases h
  | atEnd hread hconclude =>
    cases answer with
    | error e => cases h
    | ok value => exact (Stack.Gathered.empty.foldlM hread).conclude hconclude

/-- An expression that nests no deeper than the limit has an outcome or divides by zero, and nothing
else has an outcome. -/
theorem evaluate_accepts :
    (IsExpression limit lexemes →
      (∃ outcome, (evaluate env limit lexemes label world).answer = .ok outcome) ∨
        ∃ position, (evaluate env limit lexemes label world).answer =
          .error (.failed (.divisionByZero (some position)))) ∧
    (¬IsExpression limit lexemes →
      ∀ outcome, (evaluate env limit lexemes label world).answer ≠ .ok outcome) := by
  refine ⟨fun h ↦ ?_, fun h outcome hok ↦ h (isExpression_of_evaluate env limit _ _ _ hok)⟩
  obtain ⟨tree, hbound, rfl, hdepth⟩ := h.exists_tree
  cases hfaults : (tree.resolve env world).1.faults with
  | nil =>
    obtain ⟨value, trail, -, hrun⟩ := evaluate_lexemes env hbound hdepth label world hfaults
    rw [hrun]
    exact .inl ⟨_, rfl⟩
  | cons position more =>
    exact .inr ⟨position, evaluate_lexemes_of_faults env hbound hdepth label world hfaults⟩

end Expression

end Qualifier
