import Mathlib
import Qualifier.Evaluator
import Qualifier.Proofs.Frames
import Qualifier.Proofs.Level

/-!
# The log as an audit

The log of an evaluation accounts for all of it. It tells of every operator that the expression is
made of, of every change of the label from the first to the last, and of every operand that came to
nothing; `Expression.IsAudit` says so of a log.

Three facts carry this through the pass. The trail is a chronicle (`Chronicle`): each change of the
label starts from the label so far, and the `as` that makes it follows at once. What the operands
read so far have missed is in the trail in their order. And no operator gets lost: those that have
been applied, together with those that still wait in the open levels, are those that have been read
(`Stack.keeps_applied`). Operators of a level are applied tier by tier and those of groups before
those around them, so the third fact is about multisets, and it says something of the log only when
nothing waits any more.

The chronicle goes on until an error comes up and is whole then, too; what follows from that is the
second half of the main statement, `evaluate_audit`.
-/

namespace Qualifier

/-! ### What events and lexemes tell -/

namespace Event

/-- The operator whose application an event is. -/
def operator? : Event → Option Operator
  | .reduced op .. => some op
  | _ => none

/-- The labels before and after the change that an event is. -/
def relabelling? : Event → Option (String × String)
  | .relabelled before after => some (before, after)
  | _ => none

/-- The event, if it tells that an operand came to nothing. -/
def miss? (event : Event) : Option Event :=
  match event with
  | .unboundName _ | .missingSegment .. | .unregisteredCallback _ => some event
  | .called _ | .relabelled .. | .reduced .. => none

end Event

/-- The log of an evaluation: the events that have a line in it. -/
def Report.log {σ : Type} (report : Report σ) : List Event :=
  report.trail.filter (·.line?.isSome)

namespace Lexeme

/-- The operator that a lexeme is. -/
def operator? : Lexeme → Option Operator
  | .operator op _ => some op
  | .operand .. | .opening _ | .closing _ => none

/-- What a lexeme fails to find: an operand can start at a name that is not bound, leave the data at
a segment of its path, or call a name that is not registered. -/
def miss? {σ : Type} (env : Environment σ) : Lexeme → Option Event
  | .operand text _ =>
    match text.toList with
    | '$' :: path =>
      let (root, segments) := Operand.splitDots path
      match env.datum? (String.ofList root) with
      | none => some (.unboundName (String.ofList root))
      | some datum =>
        match datum.descend (segments.map String.ofList) with
        | .ok _ => none
        | .error segment => some (.missingSegment (String.ofList path) segment)
    | '@' :: name =>
      if (env.callback? (String.ofList name)).isSome then none
      else some (.unregisteredCallback (String.ofList name))
    | _ => none
  | .operator .. | .opening _ | .closing _ => none

end Lexeme

/-- Changes of the label that lead from one label to another, each from where the one before it
ended. -/
def Relabels (first : String) : List (String × String) → String → Prop
  | [], last => last = first
  | (before, after) :: rest, last => before = first ∧ Relabels after rest last

/-- The log accounts for the evaluation of the lexemes, which led from one label to another. -/
structure Expression.IsAudit {σ : Type} (env : Environment σ) (lexemes : List Lexeme)
    (first last : String) (log : List Event) : Prop where
  /-- Every operator has been applied once, in one order or another. -/
  applied : (log.filterMap Event.operator?).Perm (lexemes.filterMap Lexeme.operator?)
  /-- The label has been changed once by every `as`, -/
  relabelled : (log.filterMap Event.relabelling?).length =
    (lexemes.filterMap Lexeme.operator?).count .naming
  /-- whose application follows the change at once. -/
  followed : ∀ {earlier before after later}, log = earlier ++ .relabelled before after :: later →
    ∃ left right rest, later = .reduced .naming left right left :: rest ∧ after = right.asText
  /-- The changes lead from the first label to the last. -/
  chained : Relabels first (log.filterMap Event.relabelling?) last
  /-- Every operand that found nothing is told of once, in the order of the operands. -/
  missed : log.filterMap Event.miss? = lexemes.filterMap (Lexeme.miss? env)

/-! ### Chronicles -/

/-- An event that has nothing to do with labels. -/
def Event.IsAside : Event → Prop
  | .relabelled .. => False
  | .reduced op .. => op ≠ .naming
  | .called _ | .unboundName _ | .missingSegment .. | .unregisteredCallback _ => True

/-- Events that lead from one label to another: every change of the label starts from the label so
far and is followed by the `as` that makes it, and no other `as` is among the events. -/
inductive Chronicle : String → List Event → String → Prop
  /-- Nothing has happened. -/
  | nil (label : String) : Chronicle label [] label
  /-- Something happens that leaves the label alone. -/
  | aside {label last : String} {event : Event} {rest : List Event} (h : event.IsAside)
    (hrest : Chronicle label rest last) : Chronicle label (event :: rest) last
  /-- An operator `as` names the expression with its right side. -/
  | naming {label last : String} (left right : Value) {rest : List Event}
    (hrest : Chronicle right.asText rest last) :
    Chronicle label
      (.relabelled label right.asText :: .reduced .naming left right left :: rest) last

namespace Chronicle

variable {first between last : String} {events more : List Event}

theorem append (h : Chronicle first events between) (hmore : Chronicle between more last) :
    Chronicle first (events ++ more) last := by
  induction h with
  | nil => exact hmore
  | aside haside _ ih => exact .aside haside (ih hmore)
  | naming left right _ ih => exact .naming left right (ih hmore)

/-- Leaving out events that have nothing to do with labels leaves a chronicle. -/
theorem filter {keep : Event → Bool} (h : Chronicle first events last)
    (hkeep : ∀ event, keep event = false → event.IsAside) :
    Chronicle first (events.filter keep) last := by
  induction h with
  | nil => exact .nil _
  | @aside _ _ event _ haside _ ih =>
    rw [List.filter_cons]
    split
    · exact .aside haside ih
    · exact ih
  | @naming label _ left right _ _ ih =>
    have hrelabelled : keep (.relabelled label right.asText) = true :=
      Bool.not_eq_false _ ▸ fun h ↦ hkeep _ h
    have hreduced : keep (.reduced .naming left right left) = true :=
      Bool.not_eq_false _ ▸ fun h ↦ hkeep _ h rfl
    rw [List.filter_cons_of_pos hrelabelled, List.filter_cons_of_pos hreduced]
    exact .naming left right ih

theorem relabelling?_of_isAside {event : Event} (h : event.IsAside) :
    event.relabelling? = none := by
  cases event with
  | relabelled => exact absurd h id
  | _ => rfl

/-- The changes of the label lead from the first to the last. -/
theorem relabels (h : Chronicle first events last) :
    Relabels first (events.filterMap Event.relabelling?) last := by
  induction h with
  | nil => rfl
  | aside haside _ ih =>
    rw [List.filterMap_cons_none (relabelling?_of_isAside haside)]
    exact ih
  | naming left right _ ih => exact ⟨rfl, ih⟩

/-- There are as many changes of the label as applications of `as`. -/
theorem length_relabellings (h : Chronicle first events last) :
    (events.filterMap Event.relabelling?).length =
      (events.filterMap Event.operator?).count .naming := by
  induction h with
  | nil => rfl
  | @aside _ _ event _ haside _ ih =>
    rw [List.filterMap_cons_none (relabelling?_of_isAside haside), ih]
    cases event with
    | reduced op =>
      exact (List.count_cons_of_ne haside).symm
    | _ => rfl
  | naming left right _ ih => simp [List.filterMap_cons, Event.relabelling?, Event.operator?, ih]

/-- The `as` that changes the label follows the change at once. -/
theorem followed (h : Chronicle first events last) {earlier later : List Event}
    {before after : String} (heq : events = earlier ++ .relabelled before after :: later) :
    ∃ left right rest, later = .reduced .naming left right left :: rest ∧ after = right.asText := by
  induction h generalizing earlier with
  | nil => simp at heq
  | aside haside _ ih =>
    cases earlier with
    | nil =>
      cases heq
      exact absurd haside id
    | cons event earlier =>
      obtain ⟨-, hrest⟩ := List.cons.inj heq
      exact ih hrest
  | naming left right _ ih =>
    -- the change is the first of the events, not the second, or later than both
    match earlier with
    | [] =>
      cases heq
      exact ⟨left, right, _, rfl, rfl⟩
    | [_] => cases heq
    | _ :: _ :: earlier =>
      obtain ⟨-, hsecond⟩ := List.cons.inj heq
      obtain ⟨-, hrest⟩ := List.cons.inj hsecond
      exact ih hrest

end Chronicle

/-- The ledger has gone from one state to another by events that lead from label to label. -/
def Ledger.Continues (before after : Ledger) : Prop :=
  ∃ events, after.trail.toList = before.trail.toList ++ events ∧
    Chronicle before.label events after.label

theorem Ledger.Continues.note (ledger : Ledger) {event : Event} (h : event.IsAside) :
    ledger.Continues (ledger.note event) :=
  ⟨[event], Array.toList_push, .aside h (.nil _)⟩

/-- Only `as` changes the label. -/
theorem Operator.label_of_apply {op : Operator} {left right result : Value}
    {position : Option Nat} {label after : String} (hop : op ≠ .naming)
    (h : op.apply left right position label = .ok (result, after)) : after = label := by
  obtain happly | ⟨_, happly⟩ := op.apply_cases left right position label
  · rw [happly] at h
    cases h
  · rw [happly, if_neg hop] at h
    exact (Prod.mk.inj (Except.ok.inj h)).2.symm

/-- What an operator notes is a chronicle, whether it fails or not. -/
theorem Queue.respected_continues : Respected Ledger.Continues where
  refl ledger := ⟨[], (List.append_nil _).symm, .nil _⟩
  trans := by
    rintro first second third ⟨events, hevents, h⟩ ⟨more, hmore, h'⟩
    exact ⟨events ++ more, by rw [hmore, hevents, List.append_assoc], h.append h'⟩
  combine op left right literal position ledger := by
    rw [run_combine]
    by_cases hop : op = .naming
    · subst hop
      refine ⟨[_, _], ?_, .naming left (named .naming right literal) (.nil _)⟩
      simp [announce, Ledger.note]
    · rw [announce, if_neg hop]
      split
      · exact ⟨[], (List.append_nil _).symm, .nil _⟩
      · next happly =>
        rw [Operator.label_of_apply hop happly]
        exact .note ledger hop

/-! ### Operands -/

/-- What looking an operand up notes, if it notes anything. -/
def Operand.event? {σ : Type} (env : Environment σ) : Operand → Option Event
  | .literal _ => none
  | .call name =>
    if (env.callback? name).isSome then some (.called name) else some (.unregisteredCallback name)
  | .path root segments =>
    match env.datum? root with
    | none => some (.unboundName root)
    | some datum =>
      match datum.descend segments with
      | .ok _ => none
      | .error segment => some (.missingSegment (pathText root segments) segment)

section

variable {σ : Type} (env : Environment σ)

/-- An operand leaves the ledger alone but for the event that it notes. -/
theorem Operand.toLedger_lookUp (operand : Operand) (progress : Progress σ) :
    (operand.lookUp env progress).2.toLedger =
      (operand.event? env).elim progress.toLedger progress.toLedger.note := by
  cases operand with
  | literal => rfl
  | call name =>
    simp only [lookUp, event?]
    cases env.callback? name <;> rfl
  | path root segments =>
    simp only [lookUp, event?]
    cases env.datum? root with
    | none => rfl
    | some datum =>
      dsimp only
      cases datum.descend segments <;> rfl

/-- None of these events has to do with labels or with operators. -/
theorem Operand.isAside_of_event? {operand : Operand} {event : Event}
    (h : operand.event? env = some event) : event.IsAside ∧ event.operator? = none := by
  unfold event? at h
  grind [Event.IsAside, Event.operator?]

theorem Operand.continues_lookUp (operand : Operand) (progress : Progress σ) :
    progress.toLedger.Continues (operand.lookUp env progress).2.toLedger := by
  rw [toLedger_lookUp]
  cases hevent : operand.event? env with
  | none => exact Queue.respected_continues.refl _
  | some event => exact .note _ (isAside_of_event? env hevent).1

theorem Operand.seen_lookUp {α : Type} (view : Event → Option α) (operand : Operand)
    (progress : Progress σ) :
    (operand.lookUp env progress).2.seen view =
      progress.seen view ++ ((operand.event? env).bind view).toList := by
  rw [toLedger_lookUp]
  cases operand.event? env with
  | none => exact (List.append_nil _).symm
  | some event => exact Ledger.seen_note _ event

/-- What a lexeme fails to find is what looking it up notes. -/
theorem Lexeme.miss?_operand (text : String) (span : Span) :
    miss? env (.operand text span) = ((Operand.ofText text).event? env).bind Event.miss? := by
  simp only [miss?, Operand.ofText]
  cases text.toList with
  | nil => rfl
  | cons c rest =>
    by_cases hpath : c = '$'
    · subst hpath
      simp only [Operand.event?, Operand.pathText_splitDots]
      cases env.datum? (String.ofList (Operand.splitDots rest).1) with
      | none => rfl
      | some datum =>
        dsimp only
        cases datum.descend ((Operand.splitDots rest).2.map String.ofList) <;> rfl
    by_cases hcall : c = '@'
    · subst hcall
      simp only [Operand.event?]
      cases env.callback? (String.ofList rest) <;> rfl
    · split <;> simp_all [Operand.event?]

end

/-- Operators note nothing that is missing. -/
theorem Queue.respected_missed :
    Respected fun before after ↦ after.seen Event.miss? = before.seen Event.miss? :=
  respected_seen (fun _ _ ↦ rfl) fun _ _ _ _ ↦ rfl

/-! ### Operators that wait -/

/-- The operators that have been applied. -/
def Ledger.applied (ledger : Ledger) : Multiset Operator :=
  ledger.seen Event.operator?

/-- The operator that an entry is. -/
def Entry.operator? : Entry → Option Operator
  | .operator op _ => some op
  | .operand .. => none

/-- The operators that a queue holds. -/
def Queue.pending (queue : Queue) : Multiset Operator :=
  queue.filterMap Entry.operator?

theorem Ledger.applied_note (ledger : Ledger) (event : Event) :
    (ledger.note event).applied = ledger.applied + event.operator?.toList := by
  rw [applied, seen_note, ← Multiset.coe_add]
  rfl

theorem Operand.applied_lookUp {σ : Type} (env : Environment σ) (operand : Operand)
    (progress : Progress σ) : (operand.lookUp env progress).2.applied = progress.applied := by
  rw [Ledger.applied, seen_lookUp]
  cases hevent : operand.event? env with
  | none => exact congrArg _ (List.append_nil _)
  | some event =>
    rw [Option.bind_some, (isAside_of_event? env hevent).2]
    exact congrArg _ (List.append_nil _)

namespace Queue

@[simp] theorem pending_nil : pending [] = 0 :=
  rfl

@[simp] theorem pending_operand (value : Value) (literal : Option String) (position : Nat)
    (rest : Queue) : pending (.operand value literal position :: rest) = pending rest :=
  rfl

@[simp] theorem pending_operator (op : Operator) (position : Nat) (rest : Queue) :
    pending (.operator op position :: rest) = {op} + pending rest :=
  rfl

theorem pending_append (queue entries : Queue) :
    pending (queue ++ entries) = pending queue + pending entries := by
  rw [pending, List.filterMap_append, ← Multiset.coe_add]
  rfl

theorem pending_reverse (queue : Queue) : pending queue.reverse = pending queue := by
  rw [pending, List.filterMap_reverse]
  exact Multiset.coe_reverse _

variable {ledger ledger' : Ledger} {queue rest : Queue}

/-- An operator that does not fail has been applied. -/
theorem applied_combine {op : Operator} {left right result : Value} {literal : Option String}
    {position : Nat}
    (h : (combine op left right literal position).run ledger = (.ok result, ledger')) :
    ledger'.applied = ledger.applied + {op} := by
  rw [run_combine] at h
  split at h
  · cases h
  · cases h
    rw [Ledger.applied_note, Ledger.applied]
    have hannounce := seen_announce (fun _ _ ↦ rfl : ∀ before after,
      (Event.relabelled before after).operator? = none) op (named op right literal) ledger
    exact congrArg (fun applied : List Operator ↦ (applied : Multiset Operator) + {op}) hannounce

/-- A sweep applies operators and leaves the others in the queue. -/
theorem applied_sweep {tier : Tier} {done : Queue}
    (h : (sweep tier done queue).run ledger = (.ok rest, ledger')) :
    ledger'.applied + rest.pending = ledger.applied + (done.pending + queue.pending) := by
  fun_induction sweep tier done queue generalizing ledger with
  | case1 done =>
    cases h
    rw [pending_reverse, pending_nil, add_zero]
  | case2 _ _ _ _ _ _ _ _ _ _ _ ih =>
    obtain ⟨result, between, hcombine, hrest⟩ := run_bind_eq_ok h
    rw [ih result hrest, applied_combine hcombine]
    simp only [pending_operand, pending_operator]
    ac_rfl
  | case3 => cases h
  | case4 _ _ _ _ _ ih =>
    rw [ih h]
    simp only [pending_operator]
    ac_rfl
  | case5 _ entry _ hentry ih =>
    cases entry with
    | operand =>
      rw [ih h]
      simp only [pending_operand]
    | operator op position => exact absurd rfl (hentry op position)

/-- A queue that is the value of its level is one operand. -/
theorem pending_of_settle {value : Value} (h : settle queue = .ok value) : queue.pending = 0 := by
  rw [settle.eq_def] at h
  split at h
  · rfl
  all_goals cases h

/-- A level that has a value has applied all of its operators. -/
theorem applied_collapse {value : Value}
    (h : queue.collapse.run ledger = (.ok value, ledger')) :
    ledger'.applied = ledger.applied + queue.pending := by
  obtain ⟨rest, hsweeps, hvalue⟩ := sweeps_of_collapse h
  have hswept : ledger'.applied + rest.pending = ledger.applied + queue.pending := by
    refine run_foldlM_induction
      (fun _ rest after ↦ after.applied + rest.pending = ledger.applied + queue.pending)
      ?_ rfl hsweeps
    intro _ tier before after between ledger' h hsweep
    rw [applied_sweep hsweep, pending_nil, zero_add, h]
  rwa [pending_of_settle hvalue, add_zero] at hswept

theorem applied_finish {position : Nat} {value : Value}
    (h : (Expression.finish queue position).run ledger = (.ok value, ledger')) :
    ledger'.applied = ledger.applied + queue.pending := by
  rw [Expression.finish_of_check (Expression.check_of_finish h)] at h
  exact applied_collapse h

theorem applied_conclude {value : Value}
    (h : (Expression.conclude queue).run ledger = (.ok value, ledger')) :
    ledger'.applied = ledger.applied + queue.pending := by
  obtain ⟨_, _, _, rfl⟩ | hfinish := Expression.eq_literal_or_conclude_eq queue
  · cases h
    exact (add_zero _).symm
  · rw [hfinish] at h
    exact applied_finish h

end Queue

namespace Stack

/-- The operators that wait in the open levels. -/
def pending (stack : Stack) : Multiset Operator :=
  stack.base.pending + (stack.frames.map (·.queue.pending)).sum

theorem pending_base (base : Queue) : pending ⟨base, []⟩ = base.pending :=
  add_zero _

theorem pending_cons (base : Queue) (frame : Frame) (below : List Frame) :
    pending ⟨base, frame :: below⟩ = frame.queue.pending + pending ⟨base, below⟩ :=
  add_left_comm ..

theorem pending_append (stack : Stack) (entries : Queue) :
    (stack.append entries).pending = stack.pending + entries.pending := by
  obtain ⟨base, frames⟩ := stack
  cases frames with
  | nil => simp only [append, pending, Queue.pending_append, List.map_nil, List.sum_nil, add_zero]
  | cons frame below =>
    simp only [append, pending, Queue.pending_append, List.map_cons, List.sum_cons]
    ac_rfl

end Stack

/-! ### The pass -/

/-- The evaluation, which started with a label, is accounted for as far as the lexemes have been
read. -/
structure Progress.IsAudited {σ : Type} (env : Environment σ) (label : String)
    (read : List Lexeme) (stack : Stack) (progress : Progress σ) : Prop where
  /-- The trail leads from the label to what it is now. -/
  continues : Ledger.Continues ⟨label, #[]⟩ progress.toLedger
  /-- What the operands failed to find is in the trail, -/
  missed : progress.seen Event.miss? = read.filterMap (Lexeme.miss? env)
  /-- and the operators have been applied or wait. -/
  applied : progress.applied + stack.pending = read.filterMap Lexeme.operator?

section

variable {σ : Type} {env : Environment σ} {limit : Nat} {label : String} {read : List Lexeme}
  {stack stack' : Stack} {progress progress' : Progress σ}

/-- A lexeme that has been read is accounted for by what it fails to find and by the operator that
it is. -/
theorem Progress.IsAudited.extend {lexeme : Lexeme} (h : progress.IsAudited env label read stack)
    (hcontinues : progress.toLedger.Continues progress'.toLedger)
    (hmissed : progress'.seen Event.miss? =
      progress.seen Event.miss? ++ (lexeme.miss? env).toList)
    (happlied : progress'.applied + stack'.pending =
      progress.applied + stack.pending + lexeme.operator?.toList) :
    progress'.IsAudited env label (read ++ [lexeme]) stack' where
  continues := Queue.respected_continues.trans h.continues hcontinues
  missed := by rw [hmissed, h.missed, filterMap_append_singleton]
  applied := by rw [happlied, h.applied, filterMap_append_singleton, Multiset.coe_add]

/-- Each lexeme is accounted for. -/
theorem Stack.keeps_audited : Keeps env limit fun read stack progress ↦
    progress.IsAudited env label read stack := by
  intro read stack progress lexeme stack' progress' h hmove
  cases hmove with
  | operand _ _ text span =>
    refine h.extend (Operand.continues_lookUp env _ _) ?_ ?_
    · rw [Lexeme.miss?_operand]
      exact Operand.seen_lookUp env _ _ _
    · rw [Operand.applied_lookUp, pending_append, ← add_assoc]
      rfl
  | operator =>
    refine h.extend (Queue.respected_continues.refl _) (List.append_nil _).symm ?_
    rw [pending_append, ← add_assoc]
    rfl
  | opening =>
    refine h.extend (Queue.respected_continues.refl _) (List.append_nil _).symm ?_
    rw [pending_cons, Queue.pending_nil, zero_add]
    exact (add_zero _).symm
  | closing base frame below _ span hfinish =>
    have hcontinues := Queue.respected_continues.finish frame.queue frame.position progress.toLedger
    have hmissed := Queue.respected_missed.finish frame.queue frame.position progress.toLedger
    rw [hfinish] at hcontinues hmissed
    refine h.extend hcontinues (hmissed.trans (List.append_nil _).symm) ?_
    simp only [pending_append, pending_cons, Queue.applied_finish hfinish, add_assoc]
    rfl

/-- Nothing waits after the end. -/
theorem Progress.IsAudited.conclude {value : Value} (h : progress.IsAudited env label read stack)
    (hrun : (stack.conclude : Evaluation σ Value).run progress = (.ok value, progress')) :
    progress'.IsAudited env label read .empty := by
  obtain ⟨base, frames⟩ := stack
  cases frames with
  | cons => cases hrun
  | nil =>
    rw [Stack.conclude, Reduction.run_within] at hrun
    obtain ⟨hvalue, rfl⟩ := Prod.mk.inj hrun
    have hcontinues := Queue.respected_continues.conclude base progress.toLedger
    have hmissed := Queue.respected_missed.conclude base progress.toLedger
    have happlied := Queue.applied_conclude (Prod.ext hvalue rfl)
    refine ⟨Queue.respected_continues.trans h.continues hcontinues, hmissed.trans h.missed, ?_⟩
    rw [← h.applied, Stack.pending_base, ← happlied]
    exact add_zero _

/-- After any lexemes the evaluation is accounted for as far as these. -/
theorem Progress.isAudited_of_foldlM {world : σ}
    (hread : (read.foldlM (Stack.step env limit) .empty).run ⟨⟨label, #[]⟩, world⟩ =
      (.ok stack, progress)) : progress.IsAudited env label read stack := by
  have hstart : Progress.IsAudited env label [] .empty (⟨⟨label, #[]⟩, world⟩ : Progress σ) :=
    ⟨Queue.respected_continues.refl _, rfl, rfl⟩
  exact Stack.keeps_audited.foldlM hstart hread

end

/-! ### The log -/

section

variable {σ : Type} {env : Environment σ} {limit : Nat} {lexemes : List Lexeme} {label : String}
  {world : σ}

/-- A view that overlooks calls sees the same in the log as in the trail. -/
theorem Report.filterMap_log {α : Type} {view : Event → Option α}
    (hview : ∀ name, view (.called name) = none) (report : Report σ) :
    report.log.filterMap view = report.trail.filterMap view := by
  rw [log, List.filterMap_filter]
  congr 1
  funext event
  cases event with
  | called name => exact (hview name).symm
  | _ => rfl

/-- Calls have nothing to do with labels. -/
theorem Chronicle.log {report : Report σ} {first last : String}
    (h : Chronicle first report.trail last) : Chronicle first report.log last := by
  refine h.filter fun event hevent ↦ ?_
  cases event with
  | called => trivial
  | _ => cases hevent

/-- What has happened from the start on is a chronicle. -/
theorem Ledger.Continues.chronicle {ledger : Ledger} (h : Continues ⟨label, #[]⟩ ledger) :
    Chronicle label ledger.trail.toList ledger.label := by
  obtain ⟨events, htrail, h⟩ := h
  rwa [htrail]

namespace Expression

/-- The log of an evaluation is a chronicle, whether the evaluation fails or not. -/
theorem exists_chronicle_log (env : Environment σ) (limit : Nat) (lexemes : List Lexeme)
    (label : String) (world : σ) :
    ∃ last, Chronicle label (evaluate env limit lexemes label world).log last := by
  obtain ⟨answer, final, hpasses, heq⟩ := evaluate_passes env limit lexemes label world
  rw [heq]
  refine ⟨final.label, Chronicle.log (Ledger.Continues.chronicle ?_)⟩
  cases hpasses with
  | atEnd hread hconclude =>
    exact Queue.respected_continues.trans (Progress.isAudited_of_foldlM hread).continues
      (Queue.respected_continues.of_conclude hconclude).1
  | atLexeme _ hread hstep =>
    exact Queue.respected_continues.trans (Progress.isAudited_of_foldlM hread).continues
      (Queue.respected_continues.of_step hstep).1

/-- The log of an evaluation with an outcome accounts for all of it. -/
theorem isAudit_of_evaluate {outcome : Outcome}
    (h : (evaluate env limit lexemes label world).answer = .ok outcome) :
    IsAudit env lexemes label outcome.label (evaluate env limit lexemes label world).log := by
  obtain ⟨answer, final, hpasses, heq⟩ := evaluate_passes env limit lexemes label world
  rw [heq] at h ⊢
  cases hpasses with
  | atLexeme => cases h
  | atEnd hread hconclude =>
    cases answer with
    | error => cases h
    | ok value =>
      cases h
      have haudited := (Progress.isAudited_of_foldlM hread).conclude hconclude
      have hchronicle : Chronicle label (report (.ok value) final).log final.label :=
        haudited.continues.chronicle.log
      have happlied : ((report (.ok value) final).log.filterMap Event.operator?).Perm
          (lexemes.filterMap Lexeme.operator?) := by
        rw [Report.filterMap_log fun _ ↦ rfl]
        exact Multiset.coe_eq_coe.1 ((add_zero _).symm.trans haudited.applied)
      exact {
        applied := happlied
        relabelled := hchronicle.length_relabellings.trans (happlied.count_eq .naming)
        followed := hchronicle.followed
        chained := hchronicle.relabels
        missed := (Report.filterMap_log (fun _ ↦ rfl) _).trans haudited.missed }

end Expression

/-- The log of an evaluation that has an outcome accounts for all operators, changes of the label
and operands that came to nothing. If there is no outcome, the changes still lead on from the
source, but no label is committed. -/
theorem evaluate_audit {σ : Type} (source : String) (env : Environment σ) (world : σ) :
    (∀ outcome, (evaluate source env world).answer = .ok outcome →
      Expression.IsAudit env (Lexeme.scan source) source outcome.label
        (evaluate source env world).log) ∧
    ∀ e, (evaluate source env world).answer = .error e →
      (∃ last,
        Relabels source ((evaluate source env world).log.filterMap Event.relabelling?) last) ∧
      ((Evaluator.ofSource source).evaluate env world).2 = Evaluator.ofSource source := by
  rw [evaluate, Evaluator.evaluate_fst]
  refine ⟨fun outcome h ↦ Expression.isAudit_of_evaluate h, fun e h ↦ ⟨?_, ?_⟩⟩
  · obtain ⟨last, hchronicle⟩ := Expression.exists_chronicle_log env
      (Evaluator.ofSource source).limit (Lexeme.scan source) source world
    exact ⟨last, hchronicle.relabels⟩
  · rw [Evaluator.evaluate_snd, Evaluator.evaluate_fst, h]
    rfl

/-- In `($x as a) && @f as b` the label of the group is set before that of the whole, and both
operands that come to nothing are told of. In `($x as a) / 0` the label `a` is set and not
committed. -/
theorem evaluate_audit_of_group :
    let env : Environment Unit := ⟨fun _ ↦ none, fun _ ↦ none⟩
    let named := "($x as a) && @f as b"
    let divided := "($x as a) / 0"
    (evaluate named env ()).answer = .ok ⟨.bool false, "b"⟩ ∧
      Expression.IsAudit env (Lexeme.scan named) named "b"
        [.unboundName "x", .relabelled named "a", .reduced .naming .null (.string "a") .null,
          .unregisteredCallback "f", .reduced (.logic .and) .null .null (.bool false),
          .relabelled "a" "b", .reduced .naming (.bool false) (.string "b") (.bool false)] ∧
      (evaluate divided env ()).answer = .error (.failed (.divisionByZero (some 10))) ∧
      (∃ last, Relabels divided [(divided, "a")] last) ∧
      ((Evaluator.ofSource divided).evaluate env ()).2.label = divided := by
  intro env named divided
  have hnamed : Lexeme.scan "($x as a) && @f as b" = [.opening ⟨0, 1⟩, .operand "$x" ⟨1, 3⟩,
      .operator .naming ⟨4, 6⟩, .operand "a" ⟨7, 8⟩, .closing ⟨8, 9⟩,
      .operator (.logic .and) ⟨10, 12⟩, .operand "@f" ⟨13, 15⟩, .operator .naming ⟨16, 18⟩,
      .operand "b" ⟨19, 20⟩] := by cbv
  have hdivided : Lexeme.scan "($x as a) / 0" = [.opening ⟨0, 1⟩, .operand "$x" ⟨1, 3⟩,
      .operator .naming ⟨4, 6⟩, .operand "a" ⟨7, 8⟩, .closing ⟨8, 9⟩,
      .operator (.arithmetic .divide) ⟨10, 11⟩, .operand "0" ⟨12, 13⟩] := by cbv
  have hreport : evaluate named env () = ⟨.ok ⟨.bool false, "b"⟩,
      [.unboundName "x", .relabelled named "a", .reduced .naming .null (.string "a") .null,
        .unregisteredCallback "f", .reduced (.logic .and) .null .null (.bool false),
        .relabelled "a" "b", .reduced .naming (.bool false) (.string "b") (.bool false)], ()⟩ := by
    rw [evaluate, Evaluator.evaluate_fst]
    show Expression.evaluate env 64 (Lexeme.scan "($x as a) && @f as b") _ () = _
    rw [hnamed, Expression.evaluate, Expression.value_eq_pass]
    rfl
  have hfailure : evaluate divided env () = ⟨.error (.failed (.divisionByZero (some 10))),
      [.unboundName "x", .relabelled divided "a", .reduced .naming .null (.string "a") .null],
      ()⟩ := by
    rw [evaluate, Evaluator.evaluate_fst]
    show Expression.evaluate env 64 (Lexeme.scan "($x as a) / 0") _ () = _
    rw [hdivided, Expression.evaluate, Expression.value_eq_pass]
    rfl
  have hanswer : (evaluate named env ()).answer = .ok ⟨.bool false, "b"⟩ := by rw [hreport]
  have herror : (evaluate divided env ()).answer =
      .error (.failed (.divisionByZero (some 10))) := by rw [hfailure]
  have haudit := (evaluate_audit named env ()).1 _ hanswer
  obtain ⟨hchained, hkept⟩ := (evaluate_audit divided env ()).2 _ herror
  rw [hreport] at haudit
  rw [hfailure] at hchained
  exact ⟨hanswer, haudit, herror, hchained, by rw [hkept]; rfl⟩

end

end Qualifier
