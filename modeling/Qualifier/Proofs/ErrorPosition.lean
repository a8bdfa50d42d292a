import Mathlib
import Qualifier.Evaluator
import Qualifier.Proofs.Frames
import Qualifier.Proofs.Level
import Qualifier.Proofs.Placement

/-!
# Where errors point

An error points at the lexeme that is at fault, and the lexeme is of a kind that can be at fault in
that way (`Error.PointsAt`). Only an expression without any lexeme has none to point at, and is
reported at its start.

Positions travel from the lexemes to the entries of queues and to the frames of the stack, and from
there into errors. `Stack.Anchored` says that every position on the stack is still that of a lexeme
that has been read. Each lexeme keeps this, so whatever fails has such positions to report: a level
that fails reports an entry of its queue (`Queue.Fails.exists_pointsAt`).

The last section puts this on the ground of the source, where lexemes are slices.
-/

namespace Qualifier

/-- The error is a fault of the lexeme and gives its position. -/
inductive Error.PointsAt (limit : Nat) : Error → Lexeme → Prop
  /-- A closing parenthesis can lack its opening one. -/
  | unmatchedClosing (span : Span) :
    PointsAt limit (.malformed (.unmatchedClosing span.start)) (.closing span)
  /-- An opening parenthesis can lack its closing one. -/
  | unclosedOpening (span : Span) :
    PointsAt limit (.malformed (.unclosedOpening span.start)) (.opening span)
  /-- An operator can lack an operand, and is named. -/
  | missingOperand (op : Operator) (span : Span) :
    PointsAt limit (.malformed (.missingOperand op.symbol span.start)) (.operator op span)
  /-- An operand can follow another. -/
  | unexpectedOperand (text : String) (span : Span) :
    PointsAt limit (.malformed (.unexpectedOperand span.start)) (.operand text span)
  /-- So can a group, which counts as an operand at its opening parenthesis. -/
  | unexpectedGroup (span : Span) :
    PointsAt limit (.malformed (.unexpectedOperand span.start)) (.opening span)
  /-- A group can be empty. -/
  | emptyGroup (span : Span) :
    PointsAt limit (.malformed (.emptyExpression span.start)) (.opening span)
  /-- An opening parenthesis can be one too many within others. -/
  | nestingTooDeep (span : Span) :
    PointsAt limit (.malformed (.nestingTooDeep limit span.start)) (.opening span)
  /-- A division can be by zero. -/
  | divisionByZero (span : Span) :
    PointsAt limit (.failed (.divisionByZero (some span.start)))
      (.operator (.arithmetic .divide) span)

/-- The offset in the source that an error points at, if it points at any. -/
def Error.position? : Error → Option Nat
  | .malformed e => some e.position
  | .failed (.divisionByZero position) => position
  | .failed (.unknownOperator _) => none

theorem Error.PointsAt.position {limit : Nat} {e : Error} {lexeme : Lexeme}
    (h : e.PointsAt limit lexeme) : e.position? = some lexeme.span.start := by
  cases h <;> rfl

/-! ### Queues -/

/-- The entry stands where a lexeme of the list stands that it can have been made from. -/
inductive Entry.StemsFrom (lexemes : List Lexeme) : Entry → Prop
  /-- Operands are made from operands. -/
  | operand {text : String} {span : Span} (value : Value) (literal : Option String)
    (h : .operand text span ∈ lexemes) : StemsFrom lexemes (.operand value literal span.start)
  /-- The values of groups stand at their opening parentheses. -/
  | group {span : Span} (value : Value) (h : .opening span ∈ lexemes) :
    StemsFrom lexemes (.operand value none span.start)
  /-- Operators are made from operators. -/
  | operator {op : Operator} {span : Span} (h : .operator op span ∈ lexemes) :
    StemsFrom lexemes (.operator op span.start)

theorem Entry.StemsFrom.mono {lexemes more : List Lexeme} {entry : Entry}
    (h : entry.StemsFrom lexemes) (hsub : lexemes ⊆ more) : entry.StemsFrom more := by
  cases h with
  | operand value literal h => exact .operand value literal (hsub h)
  | group value h => exact .group value (hsub h)
  | operator h => exact .operator (hsub h)

section

variable {limit : Nat} {lexemes : List Lexeme} {queue : Queue}

/-- A queue that is not well formed has a lexeme at fault, unless it has no entry. -/
theorem Queue.exists_pointsAt_of_checkFrom {atEnd fault : SyntaxError}
    (h : ∀ entry ∈ queue, entry.StemsFrom lexemes) (hcheck : queue.checkFrom atEnd = .error fault) :
    (∃ lexeme ∈ lexemes, (Error.malformed fault).PointsAt limit lexeme) ∨
      (queue = [] ∧ fault = atEnd) := by
  fun_induction queue.checkFrom atEnd with
  | case1 atEnd =>
    cases hcheck
    exact .inr ⟨rfl, rfl⟩
  | case2 atEnd op position rest =>
    cases hcheck
    obtain ⟨⟩ | ⟨⟩ | hmem := h _ List.mem_cons_self
    exact .inl ⟨_, hmem, .missingOperand op _⟩
  | case3 => cases hcheck
  | case4 =>
    cases hcheck
    have hsecond := h _ (List.mem_cons_of_mem _ List.mem_cons_self)
    obtain ⟨-, -, hmem⟩ | ⟨-, hmem⟩ := hsecond
    · exact .inl ⟨_, hmem, .unexpectedOperand _ _⟩
    · exact .inl ⟨_, hmem, .unexpectedGroup _⟩
  | case5 atEnd value literal place op position rest ih =>
    have hrest (entry) (hentry : entry ∈ rest) : entry.StemsFrom lexemes :=
      h entry (List.mem_cons_of_mem _ (List.mem_cons_of_mem _ hentry))
    obtain hfound | ⟨-, rfl⟩ := ih hrest hcheck
    · exact .inl hfound
    -- nothing follows the operator, which is at fault itself
    · have hop := h _ (List.mem_cons_of_mem _ List.mem_cons_self)
      obtain ⟨⟩ | ⟨⟩ | hmem := hop
      exact .inl ⟨_, hmem, .missingOperand op _⟩

/-- A level that fails has a lexeme at fault, unless it is empty. -/
theorem Queue.Fails.exists_pointsAt {position : Nat} {e : Error} (hfails : queue.Fails position e)
    (h : ∀ entry ∈ queue, entry.StemsFrom lexemes) :
    (∃ lexeme ∈ lexemes, e.PointsAt limit lexeme) ∨
      (queue = [] ∧ e = .malformed (.emptyExpression position)) := by
  cases hfails with
  | malformed hcheck =>
    obtain hfound | ⟨hqueue, rfl⟩ := Queue.exists_pointsAt_of_checkFrom h hcheck
    · exact .inl hfound
    · exact .inr ⟨hqueue, rfl⟩
  | failed _ hmem =>
    obtain ⟨⟩ | ⟨⟩ | hdivide := h _ hmem
    exact .inl ⟨_, hdivide, .divisionByZero _⟩

end

/-! ### The pass -/

namespace Stack

/-- Every position on the stack is that of a lexeme that has been read. -/
structure Anchored (read : List Lexeme) (stack : Stack) : Prop where
  /-- So it is in the outermost level, -/
  base : ∀ entry ∈ stack.base, entry.StemsFrom read
  /-- in the levels within parentheses, -/
  queues : ∀ frame ∈ stack.frames, ∀ entry ∈ frame.queue, entry.StemsFrom read
  /-- and these levels are opened by parentheses that have been read. -/
  openings : ∀ frame ∈ stack.frames, ∃ span, .opening span ∈ read ∧ frame.position = span.start

variable {σ : Type} {env : Environment σ} {limit : Nat} {read : List Lexeme} {stack stack' : Stack}
  {progress progress' : Progress σ}

theorem Anchored.mono {more : List Lexeme} (h : stack.Anchored read) (hsub : read ⊆ more) :
    stack.Anchored more where
  base entry hentry := (h.base entry hentry).mono hsub
  queues frame hframe entry hentry := (h.queues frame hframe entry hentry).mono hsub
  openings frame hframe := by
    obtain ⟨span, hmem, hposition⟩ := h.openings frame hframe
    exact ⟨span, hsub hmem, hposition⟩

theorem Anchored.append {entry : Entry} (h : stack.Anchored read) (hentry : entry.StemsFrom read) :
    (stack.append [entry]).Anchored read := by
  have hqueue (queue : Queue) (hentries : ∀ e ∈ queue, e.StemsFrom read) :
      ∀ e ∈ queue ++ [entry], e.StemsFrom read := by
    intro e he
    obtain he | he := List.mem_append.1 he
    · exact hentries e he
    · rwa [List.mem_singleton.1 he]
  obtain ⟨base, frames⟩ := stack
  cases frames with
  | nil => exact ⟨hqueue base h.base, h.queues, h.openings⟩
  | cons frame below =>
    obtain ⟨hframe, hbelow⟩ := List.forall_mem_cons.1 h.queues
    obtain ⟨hopening, hopenings⟩ := List.forall_mem_cons.1 h.openings
    exact ⟨h.base, List.forall_mem_cons.2 ⟨hqueue frame.queue hframe, hbelow⟩,
      List.forall_mem_cons.2 ⟨hopening, hopenings⟩⟩

/-- The levels below an anchored one are anchored. -/
theorem Anchored.below {base : Queue} {frame : Frame} {below : List Frame}
    (h : Anchored read ⟨base, frame :: below⟩) : Anchored read ⟨base, below⟩ where
  base := h.base
  queues := (List.forall_mem_cons.1 h.queues).2
  openings := (List.forall_mem_cons.1 h.openings).2

/-- Each lexeme keeps the stack anchored. -/
theorem Anchored.step {lexeme : Lexeme} (h : stack.Anchored read)
    (hmove : Moves env limit stack progress lexeme stack' progress') :
    stack'.Anchored (read ++ [lexeme]) := by
  have hmem : lexeme ∈ read ++ [lexeme] := List.mem_append_right _ List.mem_cons_self
  have hread : stack.Anchored (read ++ [lexeme]) := h.mono (List.subset_append_left _ _)
  cases hmove with
  | operand => exact hread.append (.operand _ _ hmem)
  | operator => exact hread.append (.operator hmem)
  | opening base frames _ span =>
    exact ⟨hread.base, List.forall_mem_cons.2 ⟨List.forall_mem_nil _, hread.queues⟩,
      List.forall_mem_cons.2 ⟨⟨span, hmem, rfl⟩, hread.openings⟩⟩
  | closing base frame =>
    -- the value of the group takes the position of the parenthesis that opened it
    obtain ⟨opening, hopening, hposition⟩ := hread.openings frame List.mem_cons_self
    rw [hposition]
    exact hread.below.append (.group _ hopening)

/-- A lexeme that fails has a lexeme at fault, itself or one before it. -/
theorem Anchored.exists_pointsAt {lexeme : Lexeme} {e : Error} (h : stack.Anchored read)
    (hfails : Fails limit stack progress lexeme e progress') :
    ∃ found ∈ read ++ [lexeme], e.PointsAt limit found := by
  have hmem : lexeme ∈ read ++ [lexeme] := List.mem_append_right _ List.mem_cons_self
  have hread : stack.Anchored (read ++ [lexeme]) := h.mono (List.subset_append_left _ _)
  cases hfails with
  | opening _ _ _ span => exact ⟨_, hmem, .nestingTooDeep span⟩
  | unmatched _ _ span => exact ⟨_, hmem, .unmatchedClosing span⟩
  | closing base frame _ _ span hfinish =>
    have hqueue := hread.queues frame List.mem_cons_self
    obtain hfound | ⟨-, rfl⟩ := (Expression.fails_of_finish hfinish).exists_pointsAt hqueue
    · exact hfound
    · obtain ⟨opening, hopening, hposition⟩ := hread.openings frame List.mem_cons_self
      rw [hposition]
      exact ⟨_, hopening, .emptyGroup opening⟩

theorem append_ne_empty (entry : Entry) : stack.append [entry] ≠ empty := by
  obtain ⟨base, frames⟩ := stack
  intro h
  cases frames with
  | nil =>
    obtain ⟨hbase, -⟩ := Stack.mk.inj h
    exact List.append_ne_nil_of_right_ne_nil base (List.cons_ne_nil _ _) hbase
  | cons frame below => cases h

/-- No lexeme leaves the stack as it was before the first one. -/
theorem Moves.ne_empty {lexeme : Lexeme}
    (hmove : Moves env limit stack progress lexeme stack' progress') : stack' ≠ empty := by
  cases hmove with
  | operand => exact append_ne_empty _
  | operator => exact append_ne_empty _
  | opening =>
    intro hempty
    exact List.cons_ne_nil _ _ (Stack.mk.inj hempty).2
  | closing => exact append_ne_empty _

/-- The stack before the first lexeme is anchored, and no later one is empty; each lexeme keeps
this. -/
theorem keeps_anchored : Keeps env limit fun read stack (_ : Progress σ) ↦
    stack.Anchored read ∧ (stack = empty → read = []) := by
  intro read stack progress lexeme stack' progress' h hmove
  exact ⟨h.1.step hmove, fun hempty ↦ absurd hempty hmove.ne_empty⟩

/-- A stack that has no value has a lexeme at fault, unless nothing has been read. -/
theorem Anchored.exists_pointsAt_of_conclude {e : Error} (h : stack.Anchored read)
    (hempty : stack = empty → read = [])
    (hrun : (stack.conclude : Evaluation σ Value).run progress = (.error e, progress')) :
    (∃ lexeme ∈ read, e.PointsAt limit lexeme) ∨
      (read = [] ∧ e = .malformed (.emptyExpression 0)) := by
  obtain ⟨base, frames⟩ := stack
  cases frames with
  | cons frame below =>
    cases hrun
    obtain ⟨opening, hopening, hposition⟩ := h.openings frame List.mem_cons_self
    rw [hposition]
    exact .inl ⟨_, hopening, .unclosedOpening opening⟩
  | nil =>
    rw [Stack.conclude, Reduction.run_within] at hrun
    obtain ⟨hvalue, -⟩ := Prod.mk.inj hrun
    have hfails := Expression.fails_of_conclude (Prod.ext hvalue rfl)
    obtain hfound | ⟨rfl, rfl⟩ := hfails.exists_pointsAt h.base
    · exact .inl hfound
    · exact .inr ⟨hempty rfl, rfl⟩

end Stack

/-! ### Expressions -/

section

variable {σ : Type} (env : Environment σ) (limit : Nat) (world : σ)

/-- An expression that fails has a lexeme at fault, unless it has no lexeme at all. -/
theorem Expression.exists_pointsAt_of_evaluate {lexemes : List Lexeme} {label : String} {e : Error}
    (h : (evaluate env limit lexemes label world).answer = .error e) :
    (∃ lexeme ∈ lexemes, e.PointsAt limit lexeme) ∨
      (lexemes = [] ∧ e = .malformed (.emptyExpression 0)) := by
  obtain ⟨answer, progress, hpasses, hreport⟩ := evaluate_passes env limit lexemes label world
  rw [hreport] at h
  have hstart : Stack.empty.Anchored [] ∧ (Stack.empty = Stack.empty → ([] : List Lexeme) = []) :=
    ⟨⟨List.forall_mem_nil _, List.forall_mem_nil _, List.forall_mem_nil _⟩, fun _ ↦ rfl⟩
  cases hpasses with
  | atLexeme after hread hstep =>
    cases h
    have hreached := Stack.keeps_anchored.foldlM hstart hread
    obtain ⟨found, hfound, hpoints⟩ := hreached.1.exists_pointsAt (Stack.fails_of_step hstep)
    refine .inl ⟨found, ?_, hpoints⟩
    rw [List.append_cons]
    exact List.mem_append_left after hfound
  | atEnd hread hconclude =>
    cases answer with
    | ok value => cases h
    | error e' =>
      cases h
      obtain ⟨hanchored, hempty⟩ := Stack.keeps_anchored.foldlM hstart hread
      exact hanchored.exists_pointsAt_of_conclude hempty hconclude

/-! ### Sources -/

/-- The error marks the place of the source behind a text. -/
structure Error.Marks (limit : Nat) (source : String) (e : Error) (before : List Char) : Prop where
  /-- The source begins with the text, so the place is no part of a character. -/
  border : before <+: source.toList
  /-- The error gives the offset of the place in bytes. -/
  position : e.position? = some (Text.byteLength before)
  /-- The lexeme at fault stands there, if there are lexemes at all. -/
  cause :
    (∃ lexeme ∈ Lexeme.scan source, e.PointsAt limit lexeme ∧
      ∃ slice after, lexeme.StandsBetween before slice after source.toList) ∨
    (Lexeme.scan source = [] ∧ before = [] ∧ e = .malformed (.emptyExpression 0))
  /-- The caret has a column, behind as many blanks as there are characters in the text. -/
  caret : ∀ fault, e = .malformed fault →
    Text.column? source.toList fault.position = some before.length ∧
      fault.caret source =
        source ++ "\n" ++ String.ofList (List.replicate before.length ' ') ++ "^"

theorem Error.caret_of_position {source : String} {e : Error} {before : List Char}
    (hborder : before <+: source.toList) (hposition : e.position? = some (Text.byteLength before))
    (fault : SyntaxError) (he : e = .malformed fault) :
    Text.column? source.toList fault.position = some before.length ∧
      fault.caret source =
        source ++ "\n" ++ String.ofList (List.replicate before.length ' ') ++ "^" := by
  obtain ⟨after, hsource⟩ := hborder
  have hfault : fault.position = Text.byteLength before := by
    rw [he] at hposition
    exact Option.some.inj hposition
  have hcolumn : Text.column? source.toList fault.position = some before.length := by
    rw [hfault, ← hsource]
    exact Text.column?_append before after
  refine ⟨hcolumn, ?_⟩
  rw [SyntaxError.caret, hcolumn]
  rfl

/-- An evaluation that fails gives an error that marks a place of the source. -/
theorem Evaluator.evaluate_error_marks {source : String} {e : Error}
    (h : (((ofSource source).limitedTo limit).evaluate env world).1.answer = .error e) :
    ∃ before, e.Marks limit source before := by
  have hanswer :
      (Expression.evaluate env limit (Lexeme.scan source) source world).answer = .error e := by
    rw [evaluate] at h
    split at h
    · exact h
    · exact h
  obtain ⟨lexeme, hmem, hpoints⟩ | ⟨hscan, rfl⟩ :=
    Expression.exists_pointsAt_of_evaluate env limit world hanswer
  · obtain ⟨before, slice, after, hstands⟩ := Lexeme.scan_standsIn hmem
    have hsource := hstands.1
    have hspan := hstands.2.2
    have hborder : before <+: source.toList :=
      ⟨slice ++ after, by rw [hsource, List.append_assoc]⟩
    have hposition : e.position? = some (Text.byteLength before) := by
      rw [hpoints.position, hspan]
    exact ⟨before, hborder, hposition, .inl ⟨lexeme, hmem, hpoints, slice, after, hstands⟩,
      Error.caret_of_position hborder hposition⟩
  · have hborder : [] <+: source.toList := List.nil_prefix
    exact ⟨[], hborder, rfl, .inr ⟨hscan, rfl, rfl⟩, Error.caret_of_position hborder rfl⟩

/-- Behind a character of two bytes, offset and column differ: the parenthesis of `é + (` stands at
offset 5 and in column 4. -/
theorem Evaluator.evaluate_error_marks_unclosed :
    let env : Environment Unit := ⟨fun _ ↦ none, fun _ ↦ none⟩
    let e : Error := .malformed (.unclosedOpening 5)
    (((ofSource "é + (").limitedTo 3).evaluate env ()).1.answer = .error e ∧
      ∃ before, e.Marks 3 "é + (" before := by
  intro env e
  have h : (((ofSource "é + (").limitedTo 3).evaluate env ()).1.answer = .error e := by cbv
  exact ⟨h, evaluate_error_marks env 3 () h⟩

end

end Qualifier
