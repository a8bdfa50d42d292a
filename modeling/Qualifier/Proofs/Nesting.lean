import Mathlib.Data.List.Induction
import Qualifier.Proofs.Calls

/-!
# The limit on nesting

What the limit on nesting does, and that it does nothing else. A parenthesis is one too many if as
many others as the limit allows are open around it. `Expression.nesting` counts the open ones from
the lexemes alone, and the stack of the pass has as many frames (`Stack.keeps_nesting`).

A lexeme under a larger limit does what it does under a smaller one, unless it is a parenthesis that
the smaller one cuts off (`Stack.step_eq_or_cuts`); so a pass that is not cut off is the same under
every larger limit. What remains is where a pass is cut off, which is the main statement,
`Expression.evaluate_limited`, together with what it means for the recursion: the depth of its calls
stays within the limit. For that, `Expression.groupWithin` is the recursion with a proof of this
bound in the type of every call.
-/

namespace Qualifier

/-! ### Open parentheses -/

/-- How many parentheses are open behind a lexeme, given how many are open before it. -/
def Lexeme.nest (depth : Nat) : Lexeme → Nat
  | .opening _ => depth + 1
  | .closing _ => depth - 1
  | .operand .. | .operator .. => depth

/-- How many parentheses are open behind the lexemes. -/
def Expression.nesting (read : List Lexeme) : Nat :=
  read.foldl Lexeme.nest 0

namespace Expression

theorem nesting_append_singleton (read : List Lexeme) (lexeme : Lexeme) :
    nesting (read ++ [lexeme]) = lexeme.nest (nesting read) := by
  rw [nesting, List.foldl_append, ← nesting]
  rfl

theorem nesting_le_length (read : List Lexeme) : nesting read ≤ read.length := by
  induction read using List.reverseRecOn with
  | nil => exact Nat.le_refl 0
  | append_singleton read lexeme ih =>
    rw [nesting_append_singleton, List.length_append, List.length_singleton]
    cases lexeme <;> simp only [Lexeme.nest] <;> omega

end Expression

/-! ### Two limits -/

namespace Stack

variable {σ : Type} {env : Environment σ} {limit limit' : Nat} {stack stack' : Stack}
  {progress progress' : Progress σ}

/-- The stack is as deep as the lexemes that have been read nest, and no deeper than the limit
allows. Each lexeme keeps this. -/
theorem keeps_nesting : Keeps env limit fun read stack (_ : Progress σ) ↦
    stack.frames.length = Expression.nesting read ∧ stack.frames.length ≤ limit := by
  intro read stack progress lexeme stack' progress' h hmove
  obtain ⟨hnesting, hlimit⟩ := h
  rw [Expression.nesting_append_singleton]
  cases hmove with
  | operand =>
    rw [length_frames_append]
    exact ⟨hnesting, hlimit⟩
  | operator =>
    rw [length_frames_append]
    exact ⟨hnesting, hlimit⟩
  | opening base frames _ span hroom =>
    exact ⟨congrArg (· + 1) hnesting, hroom⟩
  | closing base frame below _ span =>
    rw [length_frames_append, ← hnesting]
    exact ⟨rfl, Nat.le_of_succ_le hlimit⟩

/-- After any lexemes the stack is as deep as they nest. -/
theorem nesting_of_foldlM {read : List Lexeme}
    (hread : (read.foldlM (step env limit) .empty).run progress = (.ok stack, progress')) :
    stack.frames.length = Expression.nesting read ∧ stack.frames.length ≤ limit := by
  have hstart : empty.frames.length = Expression.nesting [] ∧ empty.frames.length ≤ limit :=
    ⟨rfl, Nat.zero_le limit⟩
  exact keeps_nesting.foldlM hstart hread

/-- The limit cuts a lexeme off, or a larger limit makes no difference to what it does. -/
theorem step_eq_or_cuts (env : Environment σ) (hle : limit ≤ limit') (stack : Stack)
    (lexeme : Lexeme) :
    stack.step env limit' lexeme = stack.step env limit lexeme ∨
      ∃ span, lexeme = .opening span ∧ limit ≤ stack.frames.length := by
  cases lexeme with
  | operand => exact .inl rfl
  | operator => exact .inl rfl
  | closing => exact .inl rfl
  | opening span =>
    by_cases hcut : limit ≤ stack.frames.length
    · exact .inr ⟨span, rfl, hcut⟩
    · have hroom : ¬limit' ≤ stack.frames.length := fun h ↦ hcut (Nat.le_trans hle h)
      left
      rw [step, step, if_neg hcut, if_neg hroom]

/-- What is cut off has an error that says so. -/
theorem run_step_of_cut {span : Span} (h : limit ≤ stack.frames.length) :
    (stack.step env limit (.opening span)).run progress =
      (.error (.malformed (.nestingTooDeep limit span.start)), progress) := by
  rw [step, if_pos h]
  rfl

/-- A pass that gets through lexemes gets through them under every larger limit. -/
theorem run_foldlM_of_le (hle : limit ≤ limit') {lexemes : List Lexeme}
    (h : (lexemes.foldlM (step env limit) stack).run progress = (.ok stack', progress')) :
    (lexemes.foldlM (step env limit') stack).run progress = (.ok stack', progress') := by
  induction lexemes generalizing stack progress with
  | nil => exact h
  | cons lexeme rest ih =>
    rw [List.foldlM_cons] at h ⊢
    obtain ⟨next, between, hstep, hrest⟩ := run_bind_eq_ok h
    obtain heq | ⟨span, rfl, hcut⟩ := step_eq_or_cuts env hle stack lexeme
    · rw [heq, run_bind_of_ok hstep]
      exact ih hrest
    · rw [run_step_of_cut hcut] at hstep
      cases hstep

/-- Under a smaller limit it gets through them as well, unless it is cut off at one of them. -/
theorem run_foldlM_or_cut (hle : limit ≤ limit') {lexemes : List Lexeme}
    (h : (lexemes.foldlM (step env limit') stack).run progress = (.ok stack', progress')) :
    (lexemes.foldlM (step env limit) stack).run progress = (.ok stack', progress') ∨
      ∃ before span after reached between, lexemes = before ++ .opening span :: after ∧
        (before.foldlM (step env limit) stack).run progress = (.ok reached, between) ∧
        limit ≤ reached.frames.length := by
  induction lexemes generalizing stack progress with
  | nil => exact .inl h
  | cons lexeme rest ih =>
    rw [List.foldlM_cons] at h ⊢
    obtain heq | ⟨span, rfl, hcut⟩ := step_eq_or_cuts env hle stack lexeme
    · obtain ⟨next, between, hstep, hrest⟩ := run_bind_eq_ok h
      rw [heq] at hstep
      obtain hthrough | ⟨before, span, after, reached, z, rfl, hbefore, hcut⟩ := ih hrest
      · left
        rw [run_bind_of_ok hstep]
        exact hthrough
      · refine .inr ⟨lexeme :: before, span, after, reached, z, rfl, ?_, hcut⟩
        rw [List.foldlM_cons, run_bind_of_ok hstep]
        exact hbefore
    · exact .inr ⟨[], span, rest, stack, progress, rfl, rfl, hcut⟩

end Stack

namespace Expression

variable {σ : Type} (env : Environment σ) (limit : Nat) (label : String) (world : σ)

/-- The pass raises no error at any of the lexemes, as long as the limit is out of their reach. -/
def GetsThrough (read : List Lexeme) : Prop :=
  ∀ limit, read.length ≤ limit → ∃ stack progress,
    (read.foldlM (Stack.step env limit) .empty).run ⟨⟨label, #[]⟩, world⟩ = (.ok stack, progress)

variable {env limit label world}

/-- An evaluation is told by how the pass goes. -/
theorem Passes.evaluate_eq {lexemes : List Lexeme} {answer : Except Error Value}
    {final : Progress σ} (h : Passes env limit ⟨⟨label, #[]⟩, world⟩ lexemes answer final) :
    evaluate env limit lexemes label world = report answer final := by
  cases h with
  | atEnd hread hconclude =>
    exact evaluate_eq_report ((run_bind_of_ok hread).trans hconclude)
  | atLexeme after hread hstep =>
    refine evaluate_eq_report ?_
    rw [pass, Stack.resume, List.foldlM_append]
    exact run_bind_of_error ((run_bind_of_ok hread).trans (run_bind_of_error hstep))

/-- No level ends with this error: it comes from an opening parenthesis only. -/
theorem not_isOfLevel_nestingTooDeep {position : Nat} :
    ¬(Error.malformed (.nestingTooDeep limit position)).IsOfLevel :=
  id

/-- A pass that is not cut off goes the same way under a larger limit. -/
theorem Passes.of_le {limit' : Nat} (hle : limit ≤ limit') {start final : Progress σ}
    {lexemes : List Lexeme} {answer : Except Error Value}
    (h : Passes env limit start lexemes answer final)
    (hanswer : ∀ position, answer ≠ .error (.malformed (.nestingTooDeep limit position))) :
    Passes env limit' start lexemes answer final := by
  cases h with
  | atEnd hread hconclude => exact .atEnd (Stack.run_foldlM_of_le hle hread) hconclude
  | @atLexeme before lexeme after stack _ _ _ hread hstep =>
    obtain heq | ⟨span, rfl, hcut⟩ := Stack.step_eq_or_cuts env hle stack lexeme
    · exact .atLexeme after (Stack.run_foldlM_of_le hle hread) (heq ▸ hstep)
    · rw [Stack.run_step_of_cut hcut] at hstep
      cases hstep
      exact absurd rfl (hanswer span.start)

/-- A pass that is cut off is so at an opening parenthesis, and gets through all lexemes before. -/
theorem Passes.exists_cut {start final : Progress σ} {lexemes : List Lexeme} {position : Nat}
    (h : Passes env limit start lexemes (.error (.malformed (.nestingTooDeep limit position)))
      final) :
    ∃ before span after stack progress, lexemes = before ++ .opening span :: after ∧
      (before.foldlM (Stack.step env limit) .empty).run start = (.ok stack, progress) ∧
      limit ≤ stack.frames.length ∧ span.start = position := by
  cases h with
  | atEnd hread hconclude =>
    have hraised : (Error.malformed (.nestingTooDeep limit position)).RaisedAt limit none :=
      Stack.raisedAt_of_conclude hconclude
    cases hraised with
    | outermost hlevel => exact absurd hlevel not_isOfLevel_nestingTooDeep
  | atLexeme after hread hstep =>
    cases Stack.fails_of_step hstep with
    | opening base frames _ span hcut => exact ⟨_, span, after, _, _, rfl, hread, hcut, rfl⟩
    | closing base frame below _ span hfinish =>
      exact absurd (fails_of_finish hfinish).isOfLevel not_isOfLevel_nestingTooDeep

/-! ### The recursion -/

/-- `group`, with a proof at each call that its depth is within the limit. -/
def groupWithin {σ : Type} (env : Environment σ) (limit n depth : Nat) (room : depth ≤ limit)
    (start : Option Nat) (done : Queue) (lexemes : List Lexeme) (bound : lexemes.length ≤ n) :
    Evaluation σ (Value × { rest : List Lexeme // rest.length ≤ n }) :=
  match lexemes with
  | [] =>
    match start with
    | some position => throw (.malformed (.unclosedOpening position))
    | none => do
      let value ← (conclude done.reverse).within
      return (value, ⟨[], Nat.zero_le n⟩)
  | .operand text span :: rest => do
    let operand := Operand.ofText text
    let value ← modifyGet (operand.lookUp env)
    let entry := Entry.operand value operand.literal? span.start
    groupWithin env limit n depth room start (entry :: done) rest (Nat.le_of_succ_le bound)
  | .operator op span :: rest =>
    groupWithin env limit n depth room start (.operator op span.start :: done) rest
      (Nat.le_of_succ_le bound)
  | .opening span :: rest =>
    if full : limit ≤ depth then throw (.malformed (.nestingTooDeep limit span.start))
    else do
      let (value, after) ← groupWithin env limit rest.length (depth + 1) (Nat.lt_of_not_le full)
        (some span.start) [] rest (Nat.le_refl _)
      let entry := Entry.operand value none span.start
      groupWithin env limit n depth room start (entry :: done) after.val
        (Nat.le_trans after.property (Nat.le_of_succ_le bound))
  | .closing span :: rest =>
    match start with
    | none => throw (.malformed (.unmatchedClosing span.start))
    | some position => do
      let value ← (finish done.reverse position).within
      return (value, ⟨rest, Nat.le_of_succ_le bound⟩)
termination_by lexemes.length
decreasing_by
  all_goals simp only [List.length_cons]
  · omega
  · omega
  · omega
  · have := after.property
    omega

/-- Within the limit, the recursion calls itself within the limit only. -/
theorem group_eq_groupWithin (env : Environment σ) (limit n depth : Nat) (room : depth ≤ limit)
    (start : Option Nat) (done : Queue) (lexemes : List Lexeme) (bound : lexemes.length ≤ n) :
    group env limit n depth start done lexemes bound =
      groupWithin env limit n depth room start done lexemes bound := by
  induction h : lexemes.length using Nat.strongRecOn generalizing n depth start done lexemes with
  | ind k ih =>
    cases lexemes with
    | nil => cases start <;> rw [group, groupWithin]
    | cons lexeme rest =>
      have hrest : rest.length < k := by simp [← h]
      cases lexeme with
      | operand text span =>
        rw [group, groupWithin]
        simp only [ih _ hrest _ _ room _ _ _ _ rfl]
      | operator op span =>
        rw [group, groupWithin]
        exact ih _ hrest _ _ room _ _ _ _ rfl
      | opening span =>
        rw [group, groupWithin]
        split
        · rfl
        · next hfull =>
          rw [ih _ hrest _ _ (Nat.lt_of_not_le hfull) _ _ _ _ rfl]
          congr 1
          funext group
          obtain ⟨value, after⟩ := group
          have shorter : after.val.length < k := Nat.lt_of_le_of_lt after.property hrest
          exact ih _ shorter _ _ room _ _ _ _ rfl
      | closing span => cases start <;> rw [group, groupWithin]

/-- The value of a whole expression, by calls that are within the limit. -/
def valueWithin {σ : Type} (env : Environment σ) (limit : Nat) (lexemes : List Lexeme) :
    Evaluation σ Value := do
  let (value, _) ←
    groupWithin env limit lexemes.length 0 (Nat.zero_le _) none [] lexemes (Nat.le_refl _)
  return value

/-! ### Where an evaluation is cut off -/

/-- An evaluation that the limit does not cut off has the same report under every larger limit. It
is cut off exactly if there is an opening parenthesis with as many others open around it as the
limit allows, and nothing before the first such parenthesis has an error, however far the limit may
be; and it is cut off there. All calls of the recursion are at depths within the limit. -/
theorem evaluate_limited (env : Environment σ) (limit : Nat) (lexemes : List Lexeme)
    (label : String) (world : σ) :
    (∀ limit', limit ≤ limit' →
      (∀ position, (evaluate env limit lexemes label world).answer ≠
        .error (.malformed (.nestingTooDeep limit position))) →
      evaluate env limit' lexemes label world = evaluate env limit lexemes label world) ∧
    (∀ position, (evaluate env limit lexemes label world).answer =
        .error (.malformed (.nestingTooDeep limit position)) ↔
      ∃ before span after, lexemes = before ++ .opening span :: after ∧
        nesting before = limit ∧
        (∀ earlier other between, before = earlier ++ .opening other :: between →
          nesting earlier ≠ limit) ∧
        span.start = position ∧ GetsThrough env label world before) ∧
    value env limit lexemes = valueWithin env limit lexemes := by
  obtain ⟨answer, final, hpasses, hreport⟩ := evaluate_passes env limit lexemes label world
  rw [hreport]
  refine ⟨fun limit' hle hanswer ↦ ?_, fun position ↦ ⟨fun hanswer ↦ ?_, ?_⟩, ?_⟩
  · refine (hpasses.of_le hle fun position hcut ↦ hanswer position ?_).evaluate_eq
    rw [hcut]
    rfl
  · obtain rfl : answer = .error (.malformed (.nestingTooDeep limit position)) := by
      cases answer with
      | ok => cases hanswer
      | error e => exact congrArg _ (Except.error.inj hanswer)
    obtain ⟨before, span, after, stack, progress, rfl, hread, hcut, hposition⟩ :=
      hpasses.exists_cut
    obtain ⟨hnesting, hlimit⟩ := Stack.nesting_of_foldlM hread
    refine ⟨before, span, after, rfl, by omega, fun earlier other between hbefore ↦ ?_,
      hposition, fun limit' hfar ↦ ⟨stack, progress, Stack.run_foldlM_of_le ?_ hread⟩⟩
    · -- an earlier one would have been cut off
      rw [hbefore, List.foldlM_append] at hread
      obtain ⟨reached, between', hearlier, hopening⟩ := run_bind_eq_ok hread
      obtain ⟨hreached, -⟩ := Stack.nesting_of_foldlM hearlier
      intro hnested
      rw [List.foldlM_cons, run_bind_of_error (Stack.run_step_of_cut (by omega))] at hopening
      cases hopening
    · have := nesting_le_length before
      omega
  · rintro ⟨before, span, after, rfl, hnested, hfirst, rfl, hthrough⟩
    obtain ⟨stack, progress, hfar⟩ := hthrough (max limit before.length) (Nat.le_max_right ..)
    obtain hread | ⟨earlier, other, between, reached, z, rfl, hearlier, hcut⟩ :=
      Stack.run_foldlM_or_cut (Nat.le_max_left ..) hfar
    · obtain ⟨hnesting, -⟩ := Stack.nesting_of_foldlM hread
      have hcut : limit ≤ stack.frames.length := by omega
      rw [← hreport, (Passes.atLexeme after hread (Stack.run_step_of_cut hcut)).evaluate_eq]
      rfl
    · obtain ⟨hnesting, hlimit⟩ := Stack.nesting_of_foldlM hearlier
      exact absurd (by omega) (hfirst earlier other between rfl)
  · rw [value, group_eq_groupWithin env limit _ 0 (Nat.zero_le _)]
    rfl

/-- `(a) + ((b))` is cut off at the last opening parenthesis, at offset 7, if one level is allowed;
if two are, then it has the report that it has if five are. -/
theorem evaluate_limited_behind_group :
    let lexemes : List Lexeme := [.opening ⟨0, 1⟩, .operand "a" ⟨1, 2⟩, .closing ⟨2, 3⟩,
      .operator (.arithmetic .add) ⟨4, 5⟩, .opening ⟨6, 7⟩, .opening ⟨7, 8⟩, .operand "b" ⟨8, 9⟩,
      .closing ⟨9, 10⟩, .closing ⟨10, 11⟩]
    let env : Environment Unit := ⟨fun _ ↦ none, fun _ ↦ none⟩
    (evaluate env 1 lexemes "" ()).answer = .error (.malformed (.nestingTooDeep 1 7)) ∧
      (∃ before span after, lexemes = before ++ .opening span :: after ∧ nesting before = 1 ∧
        span.start = 7 ∧ GetsThrough env "" () before) ∧
      (∀ position, (evaluate env 2 lexemes "" ()).answer ≠
        .error (.malformed (.nestingTooDeep 2 position))) ∧
      evaluate env 5 lexemes "" () = evaluate env 2 lexemes "" () := by
  intro lexemes env
  have hone : (evaluate env 1 lexemes "" ()).answer =
      .error (.malformed (.nestingTooDeep 1 7)) := by
    show (evaluate env 1 lexemes "" ()).answer = _
    rw [evaluate, value_eq_pass]
    rfl
  have htwo (position : Nat) : (evaluate env 2 lexemes "" ()).answer ≠
      .error (.malformed (.nestingTooDeep 2 position)) := by
    show (evaluate env 2 lexemes "" ()).answer ≠ _
    rw [evaluate, value_eq_pass]
    intro h
    cases h
  obtain ⟨-, hcut, -⟩ := evaluate_limited env 1 lexemes "" ()
  obtain ⟨before, span, after, hsplit, hnested, -, hspan, hthrough⟩ := (hcut 7).1 hone
  have hsame := (evaluate_limited env 2 lexemes "" ()).1 5 (by decide) htwo
  exact ⟨hone, ⟨before, span, after, hsplit, hnested, hspan, hthrough⟩, htwo, hsame⟩

end Expression

end Qualifier
