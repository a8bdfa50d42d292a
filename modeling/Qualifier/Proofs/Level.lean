import Qualifier.Expression
import Qualifier.Proofs.Collapse
import Qualifier.Proofs.Frames

/-!
# How a level ends

What becomes of the queue of a level when the level ends, in a group (`Expression.finish`) or as the
whole expression (`Expression.conclude`). Both succeed only on well-formed queues, and fail in two
ways (`Queue.Fails`): with the fault that the check of the queue reports, or with a division by zero
at one of its operators. A well-formed queue has no other way to fail, so no syntax error comes from
the values.

The last sections are about what a level does to the ledger on its way, successful or not: whatever
holds between the ledgers before and after each operator holds between those before and after the
level (`Queue.Respected.collapse`) and where a pass ends (`Queue.Respected.of_step`,
`Queue.Respected.of_conclude`), and so a view of the trail that overlooks what operators note
sees no more of it afterwards (`Queue.respected_seen`).
-/

namespace Qualifier

/-- Why a level has no value; `position` is where its queue is reported if it is empty. -/
inductive Queue.Fails (queue : Queue) (position : Nat) : Error → Prop
  /-- The queue is not well formed. -/
  | malformed {fault : SyntaxError} (h : queue.check position = .error fault) :
    Fails queue position (.malformed fault)
  /-- An operator of the queue divides by zero. -/
  | failed {place : Nat} (hcheck : queue.check position = .ok ())
    (h : Entry.operator (.arithmetic .divide) place ∈ queue) :
    Fails queue position (.failed (.divisionByZero (some place)))

namespace Expression

variable {queue : Queue} {position : Nat} {ledger ledger' : Ledger}

/-! ### Groups -/

/-- A well-formed queue is collapsed when its level ends. -/
theorem finish_of_check (h : queue.check position = .ok ()) :
    finish queue position = queue.collapse := by
  rw [finish, h]
  rfl

/-- A level ends well only if its queue is well formed. -/
theorem check_of_finish {value : Value}
    (h : (finish queue position).run ledger = (.ok value, ledger')) :
    queue.check position = .ok () := by
  obtain ⟨_, _, hcheck, -⟩ := run_bind_eq_ok h
  exact (Queue.run_orMalformed_eq_ok hcheck).1

/-- A level that does not end well is not well formed or divides by zero. -/
theorem fails_of_finish {e : Error}
    (h : (finish queue position).run ledger = (.error e, ledger')) : queue.Fails position e := by
  cases hcheck : queue.check position with
  | error fault =>
    rw [finish, hcheck] at h
    cases h
    exact .malformed hcheck
  | ok =>
    rw [finish_of_check hcheck] at h
    obtain ⟨value, after, hok⟩ | ⟨place, after, hmem, herror⟩ :=
      Queue.collapse_of_check hcheck ledger
    · rw [hok] at h
      cases h
    · rw [herror] at h
      cases h
      exact .failed hcheck hmem

/-! ### Whole expressions -/

/-- A whole expression is one literal, or else it ends as every level does. -/
theorem eq_literal_or_conclude_eq (queue : Queue) :
    (∃ value text position, queue = [.operand value (some text) position]) ∨
      conclude queue = finish queue 0 := by
  rw [conclude.eq_def]
  split
  · exact .inl ⟨_, _, _, rfl⟩
  · exact .inr rfl

theorem check_of_conclude {value : Value}
    (h : (conclude queue).run ledger = (.ok value, ledger')) : queue.check 0 = .ok () := by
  obtain ⟨_, _, _, rfl⟩ | hfinish := eq_literal_or_conclude_eq queue
  · rfl
  · exact check_of_finish (hfinish ▸ h)

theorem fails_of_conclude {e : Error}
    (h : (conclude queue).run ledger = (.error e, ledger')) : queue.Fails 0 e := by
  obtain ⟨_, _, _, rfl⟩ | hfinish := eq_literal_or_conclude_eq queue
  · cases h
  · exact fails_of_finish (hfinish ▸ h)

end Expression

/-! ### What a level does to the ledger -/

namespace Queue

/-- The relation holds between the ledgers before and after each operator of a queue, whether the
operator fails or not. -/
structure Respected (R : Ledger → Ledger → Prop) : Prop where
  /-- It holds if nothing is done. -/
  refl : ∀ ledger, R ledger ledger
  /-- It holds from the first to the last of several operators. -/
  trans : ∀ {first second third}, R first second → R second third → R first third
  /-- Each operator respects it. -/
  combine : ∀ op left right literal position ledger,
    R ledger ((Queue.combine op left right literal position).run ledger).2

namespace Respected

variable {R : Ledger → Ledger → Prop} (h : Respected R)

include h

/-- What both parts of a sequence respect, the sequence respects. -/
theorem bind {α β : Type} {m : Reduction α} {f : α → Reduction β} (ledger : Ledger)
    (hm : R ledger (m.run ledger).2) (hf : ∀ a between, R between ((f a).run between).2) :
    R ledger ((m >>= f).run ledger).2 := by
  rcases hrun : m.run ledger with ⟨e | a, between⟩
  · rw [run_bind_of_error hrun]
    rwa [hrun] at hm
  · rw [run_bind_of_ok hrun]
    rw [hrun] at hm
    exact h.trans hm (hf a between)

theorem sweep (tier : Tier) (done queue : Queue) (ledger : Ledger) :
    R ledger ((Queue.sweep tier done queue).run ledger).2 := by
  fun_induction Queue.sweep tier done queue generalizing ledger with
  | case1 => exact h.refl ledger
  | case2 _ _ _ _ _ _ _ _ _ _ _ ih => exact h.bind ledger (h.combine ..) ih
  | case3 => exact h.refl ledger
  | case4 _ _ _ _ _ ih => exact ih ledger
  | case5 _ _ _ _ ih => exact ih ledger

theorem collapse (queue : Queue) (ledger : Ledger) : R ledger (queue.collapse.run ledger).2 := by
  have hsweeps (tiers : List Tier) (queue : Queue) (ledger : Ledger) :
      R ledger
        ((tiers.foldlM (fun queue tier ↦ Queue.sweep tier [] queue) queue).run ledger).2 := by
    induction tiers generalizing queue ledger with
    | nil => exact h.refl ledger
    | cons tier rest ih =>
      rw [List.foldlM_cons]
      exact h.bind ledger (h.sweep tier [] queue ledger) ih
  refine h.bind ledger (hsweeps Tier.all queue ledger) fun rest between ↦ ?_
  cases Queue.settle rest with
  | ok => exact h.refl between
  | error => exact h.refl between

theorem finish (queue : Queue) (position : Nat) (ledger : Ledger) :
    R ledger ((Expression.finish queue position).run ledger).2 := by
  refine h.bind ledger ?_ fun _ between ↦ h.collapse queue between
  cases queue.check position with
  | ok => exact h.refl ledger
  | error => exact h.refl ledger

theorem conclude (queue : Queue) (ledger : Ledger) :
    R ledger ((Expression.conclude queue).run ledger).2 := by
  obtain ⟨_, _, _, rfl⟩ | hfinish := Expression.eq_literal_or_conclude_eq queue
  · exact h.refl ledger
  · rw [hfinish]
    exact h.finish queue 0 ledger

section

variable {σ : Type} {env : Environment σ} {limit : Nat} {stack : Stack}
  {progress progress' : Progress σ}

/-- A lexeme that fails does to the ledger what the end of a level does, and nothing to the
world. -/
theorem of_step {lexeme : Lexeme} {e : Error}
    (hstep : (stack.step env limit lexeme).run progress = (.error e, progress')) :
    R progress.toLedger progress'.toLedger ∧ progress'.world = progress.world := by
  cases Stack.fails_of_step hstep with
  | opening => exact ⟨h.refl _, rfl⟩
  | unmatched => exact ⟨h.refl _, rfl⟩
  | closing base frame below _ span hfinish =>
    have hlevel := h.finish frame.queue frame.position progress.toLedger
    rw [hfinish] at hlevel
    exact ⟨hlevel, rfl⟩

/-- So does the end of the expression. -/
theorem of_conclude {answer : Except Error Value}
    (hrun : (stack.conclude : Evaluation σ Value).run progress = (answer, progress')) :
    R progress.toLedger progress'.toLedger ∧ progress'.world = progress.world := by
  obtain ⟨base, frames⟩ := stack
  cases frames with
  | cons =>
    cases hrun
    exact ⟨h.refl _, rfl⟩
  | nil =>
    rw [Stack.conclude, Reduction.run_within] at hrun
    obtain ⟨-, rfl⟩ := Prod.mk.inj hrun
    exact ⟨h.conclude base progress.toLedger, rfl⟩

end

end Respected

end Queue

/-! ### What a level leaves in the trail -/

theorem filterMap_append_singleton {α β : Type} (view : α → Option β) (l : List α) (a : α) :
    (l ++ [a]).filterMap view = l.filterMap view ++ (view a).toList := by
  rw [List.filterMap_append, List.filterMap_cons]
  cases view a <;> rfl

/-- What a view of the events sees in the trail. -/
def Ledger.seen {α : Type} (view : Event → Option α) (ledger : Ledger) : List α :=
  ledger.trail.toList.filterMap view

section

variable {α : Type} {view : Event → Option α}

@[simp] theorem Ledger.seen_note (ledger : Ledger) (event : Event) :
    (ledger.note event).seen view = ledger.seen view ++ (view event).toList := by
  rw [seen, note, Array.toList_push, filterMap_append_singleton]
  rfl

theorem Ledger.seen_note_of_none (ledger : Ledger) {event : Event} (h : view event = none) :
    (ledger.note event).seen view = ledger.seen view := by
  rw [seen_note, h, Option.toList_none, List.append_nil]

/-- A view that overlooks changes of the label sees none announced. -/
theorem Queue.seen_announce (hrelabelled : ∀ before after, view (.relabelled before after) = none)
    (op : Operator) (right : Value) (ledger : Ledger) :
    (announce op right ledger).seen view = ledger.seen view := by
  rw [announce]
  split
  · exact Ledger.seen_note_of_none _ (hrelabelled _ _)
  · rfl

/-- A view that overlooks what operators note sees no more after a level than before it. -/
theorem Queue.respected_seen (hrelabelled : ∀ before after, view (.relabelled before after) = none)
    (hreduced : ∀ op left right result, view (.reduced op left right result) = none) :
    Respected fun before after ↦ after.seen view = before.seen view where
  refl _ := rfl
  trans h h' := h'.trans h
  combine op left right literal position ledger := by
    rw [run_combine]
    split
    · exact seen_announce hrelabelled _ _ _
    · exact (Ledger.seen_note_of_none _ (hreduced _ _ _ _)).trans (seen_announce hrelabelled _ _ _)

end

end Qualifier
