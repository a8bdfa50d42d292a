import Qualifier.Proofs.Splicing

/-!
# The check is the precondition of collapsing

Two procedures look at the shape of a queue. `Queue.check` reads it once from the left, before
anything is applied; `Queue.collapse` asks for operands where it needs them, and has set labels and
divided before it notices that one is missing. The main statement is `Queue.collapse_checked`: they
agree on every queue, and a queue that passes the check fails only by dividing by zero.

What a queue asks for next is the state of a small automaton (`Queue.turn`), and the queues that
pass are those that it accepts (`Queue.check_eq_ok_iff`). A sweep puts one operand in the place of
an operand, an operator and an operand, which the automaton cannot tell
(`Queue.foldlM_turn_of_sweep`). So a queue that is settled in the end, as one operand, has passed
from the start. The other half is about the queue of a tree, whose divisions by zero can be read off
the queue (`Tree.zeroDivisions_entries`).
-/

namespace Qualifier

namespace Queue

/-! ### Shape -/

/-- What is expected behind an entry (`true`: an operand), if the entry is what was expected. -/
def turn : Bool → Entry → Option Bool
  | true, .operand .. => some false
  | false, .operator .. => some true
  | true, .operator .. | false, .operand .. => none

/-- Operands and operators take turns in the queue, and operands stand at both ends. -/
def Alternates (queue : Queue) : Prop :=
  queue.foldlM turn true = some false

/-- These are the queues that pass the check. -/
theorem checkFrom_eq_ok_iff (queue : Queue) (atEnd : SyntaxError) :
    queue.checkFrom atEnd = .ok () ↔ queue.Alternates := by
  fun_induction checkFrom atEnd queue with
  | case1 => simp [Alternates]
  | case2 => simp [Alternates, turn]
  | case3 => simp [Alternates, turn]
  | case4 => simp [Alternates, turn]
  | case5 _ _ _ _ _ _ _ ih =>
    rw [ih]
    simp [Alternates, turn]

theorem check_eq_ok_iff (queue : Queue) (position : Nat) :
    queue.check position = .ok () ↔ queue.Alternates :=
  checkFrom_eq_ok_iff queue _

section

variable {tier : Tier} {done queue rest : Queue} {ledger ledger' : Ledger} {value : Value}

/-- What a sweep leaves takes the turns of what the sweep was given. -/
theorem foldlM_turn_of_sweep (h : (sweep tier done queue).run ledger = (.ok rest, ledger')) :
    rest.foldlM turn true = (done.reverse ++ queue).foldlM turn true := by
  fun_induction sweep tier done queue generalizing ledger with
  | case1 done =>
    cases h
    rw [List.append_nil]
  | case2 op position hop left spelling start before right literal place rest ih =>
    obtain ⟨result, between, -, hrest⟩ := run_bind_eq_ok h
    rw [ih result hrest, List.reverse_cons, List.reverse_cons, List.append_assoc,
      List.append_assoc, List.singleton_append, List.singleton_append, List.foldlM_append,
      List.foldlM_append]
    congr 1
    funext expected
    -- an operand, an operator and an operand take the turns of one operand
    cases expected <;> rfl
  | case3 => cases h
  | case4 done op position rest hop ih =>
    rw [ih h, List.reverse_cons, List.append_assoc, List.singleton_append]
  | case5 done entry rest hentry ih =>
    rw [ih h, List.reverse_cons, List.append_assoc, List.singleton_append]

theorem alternates_of_settle (h : settle queue = .ok value) : queue.Alternates := by
  rw [settle.eq_def] at h
  split at h
  · rfl
  all_goals cases h

/-- A queue with a value is well formed: it is settled as one operand, and taking the sweeps back
cannot make it ill formed. -/
theorem alternates_of_collapse (h : queue.collapse.run ledger = (.ok value, ledger')) :
    queue.Alternates := by
  obtain ⟨rest, hsweeps, hvalue⟩ := sweeps_of_collapse h
  have hturns : rest.foldlM turn true = queue.foldlM turn true := by
    refine run_foldlM_induction (fun _ rest _ ↦ rest.foldlM turn true = queue.foldlM turn true)
      ?_ rfl hsweeps
    intro _ tier before after between ledger h hsweep
    rw [foldlM_turn_of_sweep hsweep]
    exact h
  rw [Alternates, ← hturns]
  exact alternates_of_settle hvalue

/-! ### Operators -/

/-- A sweep leaves no operator of its tier, and none of a tier of which there was none. -/
theorem Swept.of_sweep {swept : Tier} (hdone : done.Swept swept)
    (hqueue : swept = tier ∨ queue.Swept swept)
    (h : (sweep tier done queue).run ledger = (.ok rest, ledger')) : rest.Swept swept := by
  fun_induction sweep tier done queue generalizing ledger with
  | case1 done =>
    cases h
    exact hdone.reverse
  | case2 op position hop left spelling start before right literal place rest ih =>
    obtain ⟨result, between, -, hrest⟩ := run_bind_eq_ok h
    have hrest' := hqueue.imp_right fun hqueue ↦ hqueue.tail.tail
    exact ih result hdone.tail.operand hrest' hrest
  | case3 => cases h
  | case4 done op position rest hop ih =>
    have hentry : (Entry.operator op position).tier? ≠ some swept := by
      intro htier
      obtain rfl | hqueue := hqueue
      · exact hop (Option.some.inj htier)
      · exact hqueue _ List.mem_cons_self htier
    exact ih (hdone.cons hentry) (hqueue.imp_right Swept.tail) h
  | case5 done entry rest hentry ih =>
    cases entry with
    | operand => exact ih hdone.operand (hqueue.imp_right Swept.tail) h
    | operator op position => exact absurd rfl (hentry op position)

/-- After all sweeps no operator is left, whatever the queue was. -/
theorem operator_not_mem_of_sweeps
    (h : (Tier.all.foldlM (fun queue tier ↦ sweep tier [] queue) queue).run ledger =
      (.ok rest, ledger')) (op : Operator) (position : Nat) :
    Entry.operator op position ∉ rest := by
  have hswept : ∀ tier ∈ Tier.all, rest.Swept tier := by
    refine run_foldlM_induction (fun tiers rest _ ↦ ∀ tier ∈ tiers, rest.Swept tier) ?_
      (fun _ hmem ↦ nomatch hmem) h
    intro tiers tier before after between ledger h hsweep swept hmem
    have hnil : Swept swept [] := List.forall_mem_nil _
    rcases List.mem_append.1 hmem with hmem | hmem
    · exact hnil.of_sweep (.inr (h swept hmem)) hsweep
    · exact hnil.of_sweep (.inl (List.mem_singleton.1 hmem)) hsweep
  exact fun hmem ↦ hswept op.tier op.tier.mem_all _ hmem rfl

end

end Queue

/-! ### Divisions -/

/-- Where an entry stands that is an operator and divides by the entry behind it, an operand that
counts as zero. -/
def Entry.zeroDivision? : Entry → Entry → Option Nat
  | .operator op position, .operand right _ _ =>
    if op.DividesByZero right then some position else none
  | _, _ => none

/-- Where a queue has an operator that divides by an operand directly behind it that counts as zero,
from left to right. -/
def Queue.zeroDivisions (queue : Queue) : List Nat :=
  (queue.zip queue.tail).filterMap fun (entry, next) ↦ entry.zeroDivision? next

theorem Queue.zeroDivisions_cons_cons (entry next : Entry) (rest : Queue) :
    zeroDivisions (entry :: next :: rest) =
      (entry.zeroDivision? next).toList ++ zeroDivisions (next :: rest) := by
  simp only [zeroDivisions, List.tail_cons, List.zip_cons_cons, List.filterMap_cons]
  cases entry.zeroDivision? next <;> rfl

namespace Tree

theorem zeroDivision?_entry (op : Operator) (span : Span) (right : Tree Known) {value : Value}
    (h : right.value? = some value) :
    (Entry.zeroDivision? (.operator op span.start) right.entry).toList = fault op span right := by
  rw [entry, h, fault, h, Option.any_some, Entry.zeroDivision?, Option.getD_some]
  by_cases hzero : op.DividesByZero value <;> simp [hzero]

/-- The divisions by zero of a chain are those of its queue. -/
theorem zeroDivisions_linkEntries {first : Tree Known} {links : List (Link Known)}
    (h : Chain.IsKnown ⟨first, links⟩) :
    Queue.zeroDivisions (first.entry :: linkEntries links) = linkFaults links := by
  induction links generalizing first with
  | nil => rfl
  | cons link rest ih =>
    obtain ⟨value, hvalue⟩ := Option.isSome_iff_exists.1 h.tail.first
    rw [linkEntries_cons, Queue.zeroDivisions_cons_cons, Queue.zeroDivisions_cons_cons, ih h.tail,
      zeroDivision?_entry _ _ _ hvalue]
    rfl

/-- The divisions by zero of a level are those of its queue. -/
theorem zeroDivisions_entries {tree : Tree Known} (hbound : tree.WellBound)
    (hinner : tree.innerFaults = []) : tree.entries.zeroDivisions = tree.levelFaults := by
  rw [levelFaults_eq hbound, entries, zeroDivisions_linkEntries (isKnown_level hinner)]

end Tree

namespace Queue

variable {queue : Queue} {position : Nat}

/-- A well-formed queue collapses to a value, unless it divides by zero; then the leftmost such
division is the error, and no label has been set. -/
theorem collapse_of_zeroDivisions (h : queue.check position = .ok ()) (ledger : Ledger) :
    (queue.zeroDivisions = [] → ∃ value, (queue.collapse.run ledger).1 = .ok value) ∧
      ∀ place more, queue.zeroDivisions = place :: more →
        (queue.collapse.run ledger).1 = .error (.failed (.divisionByZero (some place))) ∧
          (queue.collapse.run ledger).2.label = ledger.label := by
  obtain ⟨tree, hbound, hinner, rfl⟩ := exists_tree h
  rw [Tree.zeroDivisions_entries hbound hinner]
  constructor
  · intro hlevel
    obtain ⟨trail, hrun⟩ := Tree.collapse_entries hbound hinner hlevel ledger
    exact ⟨_, by rw [hrun]⟩
  · intro place more hlevel
    obtain ⟨trail, hrun⟩ := Tree.collapse_of_levelFaults hbound hinner hlevel ledger
    rw [hrun]
    exact ⟨rfl, rfl⟩

/-- The check of a queue is the precondition of collapsing it. Collapsing ends for every queue, and
in place no index is ever out of range. A queue that does not pass the check has no value. One that
passes it has a value unless it divides by zero; then it fails at the leftmost such division with
the label that it was given. And no queue is swept down to a lone operator. -/
theorem collapse_checked (queue : Queue) (position : Nat) (ledger : Ledger) :
    queue.collapseInPlace.run ledger =
        ((queue.collapse.run ledger).1.mapError Halt.fault, (queue.collapse.run ledger).2) ∧
      (queue.collapseInPlace.run ledger).1 ≠ .error .outOfRange ∧
      (∀ fault, queue.check position = .error fault →
        ∀ value, (queue.collapse.run ledger).1 ≠ .ok value) ∧
      (queue.check position = .ok () →
        (queue.zeroDivisions = [] → ∃ value, (queue.collapse.run ledger).1 = .ok value) ∧
          ∀ place more, queue.zeroDivisions = place :: more →
            (queue.collapse.run ledger).1 = .error (.failed (.divisionByZero (some place))) ∧
              (queue.collapse.run ledger).2.label = ledger.label) ∧
      ∀ rest ledger', (Tier.all.foldlM (fun queue tier ↦ rescan tier queue) queue).run ledger =
          (.ok rest, ledger') →
        ∀ op place, rest ≠ [.operator op place] := by
  have hinPlace : queue.collapseInPlace.run ledger =
      ((queue.collapse.run ledger).1.mapError Halt.fault, (queue.collapse.run ledger).2) := by
    rw [collapseInPlace_eq, Reduction.run_indexed]
  refine ⟨hinPlace, ?_, ?_, fun hcheck ↦ collapse_of_zeroDivisions hcheck ledger, ?_⟩
  · rw [hinPlace]
    cases (queue.collapse.run ledger).1 <;> nofun
  · intro fault hcheck value hvalue
    have halternates := alternates_of_collapse (Prod.ext hvalue rfl)
    rw [(check_eq_ok_iff queue position).2 halternates] at hcheck
    cases hcheck
  · intro rest ledger' hrun op place hrest
    rw [foldlM_rescan, Reduction.run_indexed] at hrun
    rcases hsweeps : (Tier.all.foldlM (fun queue tier ↦ sweep tier [] queue) queue).run ledger with
      ⟨e | swept, after⟩
    · rw [hsweeps] at hrun
      cases hrun
    · rw [hsweeps] at hrun
      cases hrun
      refine operator_not_mem_of_sweeps hsweeps op place ?_
      rw [hrest]
      exact List.mem_singleton_self _

/-- After `a as b as`, the label is set before the queue fails; in `a as true / 0` it is not. -/
theorem collapse_checked_unless_divided :
    let malformed : Queue := [.operand (.string "a") none 0, .operator .naming 2,
      .operand (.string "b") none 5, .operator .naming 7]
    let divided : Queue := [.operand (.string "a") none 0, .operator .naming 2,
      .operand (.bool true) none 5, .operator (.arithmetic .divide) 10, .operand .null none 12]
    let ledger : Ledger := ⟨"start", #[]⟩
    malformed.check 0 = .error (.missingOperand "as" 7) ∧
      (∀ value, (malformed.collapse.run ledger).1 ≠ .ok value) ∧
      (malformed.collapse.run ledger).2.label = "b" ∧
      divided.check 0 = .ok () ∧ divided.zeroDivisions = [10] ∧
      (divided.collapse.run ledger).1 = .error (.failed (.divisionByZero (some 10))) ∧
      (divided.collapse.run ledger).2.label = "start" := by
  intro malformed divided ledger
  have hmalformed : malformed.check 0 = .error (.missingOperand "as" 7) := rfl
  have hdivided : divided.check 0 = .ok () := rfl
  have hzero : divided.zeroDivisions = [10] := by decide
  obtain ⟨-, -, hrejected, -⟩ := collapse_checked malformed 0 ledger
  obtain ⟨-, -, -, haccepted, -⟩ := collapse_checked divided 0 ledger
  obtain ⟨herror, hlabel⟩ := (haccepted hdivided).2 10 [] hzero
  exact ⟨hmalformed, hrejected _ hmalformed, rfl, hdivided, hzero, herror, hlabel⟩

end Queue

end Qualifier
