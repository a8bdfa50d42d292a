import Qualifier.Proofs.Level

/-!
# Collapsing a queue in place

`Queue.sweep` goes over a queue once for each tier, with what lies behind it in a list of its own.
The same can be done in place, with indices: look for the leftmost operator of the tier from the
front, put its result at the index before it, remove the operator and the entry behind it, and start
again (`Queue.rescan`). Each of these accesses has a range, and an access out of range is a way to
stop short of its own, `Halt.outOfRange`.

The main statement is `Queue.collapseInPlace_eq`: both ways are one computation, so that no index is
ever out of range, whether the queue is well formed or not. It rests on what a sweep keeps behind
it: no operator of the tier (`Queue.Swept`), so that a search from the front finds the operator at
which the sweep has arrived. Rescanning ends because each turn leaves a shorter queue
(`Queue.length_lt_of_splice?`).
-/

namespace Qualifier

/-! ### Computations with indices -/

/-- How a computation with indices can stop short. -/
inductive Halt where
  /-- It fails as an evaluation can. -/
  | fault (e : Error)
  /-- An index is out of range. -/
  | outOfRange

/-- A computation with operators that gets at entries by their indices. -/
abbrev Indexed (α : Type) :=
  ExceptT Halt (StateM Ledger) α

namespace Reduction

variable {α β : Type}

/-- A computation with operators as part of one with indices. -/
def indexed (reduction : Reduction α) : Indexed α :=
  reduction.adapt Halt.fault

theorem run_indexed (reduction : Reduction α) (ledger : Ledger) :
    reduction.indexed.run ledger =
      ((reduction.run ledger).1.mapError Halt.fault, (reduction.run ledger).2) :=
  rfl

theorem indexed_pure (a : α) : (pure a : Reduction α).indexed = pure a :=
  rfl

theorem indexed_bind (m : Reduction α) (f : α → Reduction β) :
    (m >>= f).indexed = m.indexed >>= fun a ↦ (f a).indexed := by
  refine ExceptT.ext (funext fun ledger ↦ ?_)
  rcases hm : m.run ledger with ⟨e | a, between⟩
  · have hindexed : m.indexed.run ledger = (.error (.fault e), between) := by
      rw [run_indexed, hm]
      rfl
    rw [run_bind_of_error hindexed, run_indexed, run_bind_of_error hm]
    rfl
  · have hindexed : m.indexed.run ledger = (.ok a, between) := by
      rw [run_indexed, hm]
      rfl
    rw [run_bind_of_ok hindexed, run_indexed, run_bind_of_ok hm, run_indexed]

end Reduction

/-- The tier of an entry that is an operator. -/
def Entry.tier? : Entry → Option Tier
  | .operator op _ => some op.tier
  | .operand .. => none

namespace Queue

/-- The index before another, if there is one. -/
def before? : Nat → Option Nat
  | 0 => none
  | index + 1 => some index

/-- The leftmost operator of a tier, with its index and its position. -/
def leftmost? (tier : Tier) (queue : Queue) : Option (Nat × Operator × Nat) :=
  queue.zipIdx.findSome? fun
    | (.operator op position, index) => if op.tier = tier then some (index, op, position) else none
    | (.operand .., _) => none

/-- The operand at an index; if there is none, the operator that asks for it lacks an operand. -/
def operandAt (queue : Queue) (index? : Option Nat) (op : Operator) (position : Nat) :
    Except SyntaxError (Value × Option String × Nat) :=
  match index?.bind (queue[·]?) with
  | some (.operand value literal start) => .ok (value, literal, start)
  | _ => .error (.missingOperand op.symbol position)

/-- The queue with another entry at an index, which has to be in range. -/
def replace? (queue : Queue) (index : Nat) (entry : Entry) : Option Queue :=
  if index < queue.length then some (queue.set index entry) else none

/-- The queue without the entries from one index up to another, which have to be in range. -/
def drain? (queue : Queue) (first last : Nat) : Option Queue :=
  if first ≤ last + 1 ∧ last < queue.length then
    some (queue.take first ++ queue.drop (last + 1))
  else none

/-- The queue with an entry in the place of the operator at an index and of its neighbours. -/
def splice? (queue : Queue) (index : Nat) (entry : Entry) : Option Queue := do
  let before ← before? index
  let replaced ← queue.replace? before entry
  replaced.drain? index (index + 1)

theorem length_lt_of_splice? {queue shorter : Queue} {index : Nat} {entry : Entry}
    (h : queue.splice? index entry = some shorter) : shorter.length < queue.length := by
  simp only [splice?, replace?, drain?, Option.bind_eq_bind, Option.bind_eq_some_iff] at h
  obtain ⟨before, -, replaced, hreplaced, h⟩ := h
  split at hreplaced
  · cases hreplaced
    split at h
    · next hlast =>
      cases h
      simp only [List.length_set] at hlast
      simp only [List.length_append, List.length_take, List.length_drop, List.length_set]
      omega
    · cases h
  · cases hreplaced

/-- Applies the operators of one tier in place: always the leftmost, until there is none. -/
def rescan (tier : Tier) (queue : Queue) : Indexed Queue :=
  match queue.leftmost? tier with
  | none => return queue
  | some (index, op, position) => do
    let (left, _, start) ← (orMalformed (queue.operandAt (before? index) op position)).indexed
    let (right, literal, _) ← (orMalformed (queue.operandAt (some (index + 1)) op position)).indexed
    let result ← (combine op left right literal position).indexed
    match _h : queue.splice? index (.operand result none start) with
    | some shorter => rescan tier shorter
    | none => throw .outOfRange
termination_by queue.length
decreasing_by exact length_lt_of_splice? _h

/-- The value of a queue, computed in place. -/
def collapseInPlace (queue : Queue) : Indexed Value := do
  let rest ← Tier.all.foldlM (fun queue tier ↦ rescan tier queue) queue
  (orMalformed (settle rest)).indexed

/-! ### The leftmost operator -/

variable {tier : Tier} {op : Operator} (position : Nat)

/-- No operator of the tier is left in the queue. -/
def Swept (tier : Tier) (queue : Queue) : Prop :=
  ∀ entry ∈ queue, entry.tier? ≠ some tier

section

variable {queue : Queue}

theorem Swept.reverse (h : queue.Swept tier) : Swept tier queue.reverse :=
  fun entry hmem ↦ h entry (List.mem_reverse.1 hmem)

theorem Swept.cons {entry : Entry} (hentry : entry.tier? ≠ some tier) (h : queue.Swept tier) :
    Swept tier (entry :: queue) :=
  List.forall_mem_cons.2 ⟨hentry, h⟩

theorem Swept.operand {value : Value} {literal : Option String} {position : Nat}
    (h : queue.Swept tier) : Swept tier (.operand value literal position :: queue) := by
  refine h.cons ?_
  intro htier
  cases htier

theorem Swept.tail {entry : Entry} (h : Swept tier (entry :: queue)) : queue.Swept tier :=
  (List.forall_mem_cons.1 h).2

theorem leftmost?_of_swept (h : queue.Swept tier) : queue.leftmost? tier = none := by
  refine List.findSome?_eq_none_iff.2 fun ⟨entry, index⟩ hmem ↦ ?_
  have hentry := h entry (List.fst_mem_of_mem_zipIdx hmem)
  cases entry with
  | operand => rfl
  | operator op position => exact if_neg fun hop ↦ hentry (congrArg some hop)

theorem rescan_of_swept (h : queue.Swept tier) : rescan tier queue = return queue := by
  rw [rescan, leftmost?_of_swept h]

end

/-- Behind entries that are not of the tier, the next operator of the tier is the leftmost. -/
theorem leftmost?_append {before : Queue} (h : before.Swept tier) (hop : op.tier = tier)
    (after : Queue) :
    (before ++ .operator op position :: after).leftmost? tier =
      some (before.length, op, position) := by
  have hbefore := leftmost?_of_swept h
  rw [leftmost?] at hbefore
  rw [leftmost?, List.zipIdx_append, List.findSome?_append, hbefore, List.zipIdx_cons,
    List.findSome?_cons]
  simp [hop]

/-! ### One turn -/

theorem operandAt_append (before : Queue) (value : Value) (literal : Option String) (start : Nat)
    (after : Queue) (op : Operator) :
    (before ++ .operand value literal start :: after).operandAt (some before.length) op position =
      .ok (value, literal, start) := by
  simp [operandAt]

theorem drain?_append (before middle after : Queue) {last : Nat} (hmiddle : middle ≠ [])
    (hlast : last + 1 = before.length + middle.length) :
    (before ++ (middle ++ after)).drain? before.length last = some (before ++ after) := by
  have hpos := List.length_pos_iff.2 hmiddle
  have hrange : before.length ≤ last + 1 ∧ last < (before ++ (middle ++ after)).length := by
    simp only [List.length_append]
    omega
  have hdrop : (before ++ (middle ++ after)).drop (last + 1) = after := by
    rw [hlast, ← List.append_assoc, List.drop_left' List.length_append]
  rw [drain?, if_pos hrange, hdrop, List.take_left' rfl]

/-- One entry takes the place of three. -/
theorem splice?_append (before after : Queue) (first second third entry : Entry) :
    (before ++ first :: second :: third :: after).splice? (before.length + 1) entry =
      some (before ++ entry :: after) := by
  have hreplace : (before ++ first :: second :: third :: after).replace? before.length entry =
      some ((before ++ [entry]) ++ ([second, third] ++ after)) := by
    simp [replace?]
  have hdrain := drain?_append (before ++ [entry]) [second, third] after (List.cons_ne_nil _ _) rfl
  rw [List.length_append, List.append_assoc] at hdrain
  simp only [splice?, before?, Option.bind_eq_bind, Option.bind_some, hreplace]
  simpa using hdrain

/-- The leftmost operator is applied to its neighbours, -/
theorem rescan_operator {before : Queue} (h : before.Swept tier) (hop : op.tier = tier)
    (left right : Value) (spelling literal : Option String) (start place : Nat) (after : Queue) :
    rescan tier (before ++ .operand left spelling start :: .operator op position ::
        .operand right literal place :: after) =
      (do
        let result ← (combine op left right literal position).indexed
        rescan tier (before ++ .operand result none start :: after)) := by
  generalize hqueue : before ++ .operand left spelling start :: .operator op position ::
    .operand right literal place :: after = queue
  have hleftmost : queue.leftmost? tier = some (before.length + 1, op, position) := by
    have hswept : Swept tier (before ++ [.operand left spelling start]) :=
      List.forall_mem_append.2 ⟨h, by simp [Entry.tier?]⟩
    have hfound := leftmost?_append position hswept hop (.operand right literal place :: after)
    rw [← hqueue]
    simpa using hfound
  have hleft : queue.operandAt (some before.length) op position = .ok (left, spelling, start) := by
    rw [← hqueue]
    exact operandAt_append position before left spelling start _ op
  have hright : queue.operandAt (some (before.length + 1 + 1)) op position =
      .ok (right, literal, place) := by
    have hfound := operandAt_append position
      (before ++ [.operand left spelling start, .operator op position]) right literal place after op
    rw [← hqueue]
    simpa using hfound
  have hsplice (result : Value) : queue.splice? (before.length + 1) (.operand result none start) =
      some (before ++ .operand result none start :: after) := by
    rw [← hqueue]
    exact splice?_append ..
  rw [rescan, hleftmost]
  simp only [before?, hleft, hright, orMalformed, Reduction.indexed_pure, pure_bind]
  congr 1
  funext result
  split
  · next hshorter =>
    rw [hsplice] at hshorter
    cases hshorter
    rfl
  · next hnone =>
    rw [hsplice] at hnone
    cases hnone

/-- and fails if it lacks one of them. -/
theorem rescan_of_missing {done after : Queue} (h : done.Swept tier) (hop : op.tier = tier)
    (hmissing : ∀ left spelling start earlier right literal place later,
      done = .operand left spelling start :: earlier →
        after = .operand right literal place :: later → False) :
    rescan tier (done.reverse ++ .operator op position :: after) =
      throw (.fault (.malformed (.missingOperand op.symbol position))) := by
  rw [rescan, leftmost?_append position h.reverse hop, List.length_reverse]
  cases done with
  | nil => rfl
  | cons entry earlier =>
    generalize hqueue : (entry :: earlier).reverse ++ .operator op position :: after = queue
    have hentry : queue[earlier.length]? = some entry := by
      rw [← hqueue]
      simp
    have hnext : queue[earlier.length + 1 + 1]? = after[0]? := by
      rw [← hqueue, List.append_cons, List.getElem?_append_right (by simp)]
      simp
    simp only [before?, List.length_cons]
    cases entry with
    | operator op' position' =>
      simp only [operandAt, Option.bind_some, hentry]
      rfl
    | operand left spelling start =>
      simp only [operandAt, Option.bind_some, hentry, hnext]
      match after, hmissing with
      | [], _ => rfl
      | .operator .. :: _, _ => rfl
      | .operand right literal place :: later, hmissing =>
        exact (hmissing _ _ _ _ _ _ _ _ rfl rfl).elim

/-! ### All turns -/

/-- A sweep applies the leftmost operator of its tier until there is none. -/
theorem rescan_eq_sweep {done : Queue} (h : done.Swept tier) (queue : Queue) :
    rescan tier (done.reverse ++ queue) = (sweep tier done queue).indexed := by
  fun_induction sweep tier done queue with
  | case1 done =>
    rw [List.append_nil, rescan_of_swept h.reverse]
    rfl
  | case2 op position hop left spelling start before right literal place rest ih =>
    rw [List.reverse_cons, List.append_assoc, List.singleton_append,
      rescan_operator position h.tail.reverse hop, Reduction.indexed_bind]
    congr 1
    funext result
    -- the result of the operator is behind the sweep from now on
    rw [← ih result h.tail.operand, List.reverse_cons, List.append_assoc,
      List.singleton_append]
  | case3 done op position rest hop hmissing =>
    rw [rescan_of_missing position h hop hmissing]
    rfl
  | case4 done op position rest hop ih =>
    rw [← ih (h.cons fun htier ↦ hop (Option.some.inj htier)), List.reverse_cons,
      List.append_assoc, List.singleton_append]
  | case5 done entry rest hentry ih =>
    cases entry with
    | operand =>
      rw [← ih h.operand, List.reverse_cons, List.append_assoc, List.singleton_append]
    | operator op position => exact absurd rfl (hentry op position)

theorem foldlM_rescan (tiers : List Tier) (queue : Queue) :
    tiers.foldlM (fun queue tier ↦ rescan tier queue) queue =
      (tiers.foldlM (fun queue tier ↦ sweep tier [] queue) queue).indexed := by
  induction tiers generalizing queue with
  | nil => rfl
  | cons tier rest ih =>
    have hfirst : rescan tier queue = (sweep tier [] queue).indexed :=
      rescan_eq_sweep (List.forall_mem_nil _) queue
    rw [List.foldlM_cons, List.foldlM_cons, Reduction.indexed_bind, hfirst]
    congr 1
    funext swept
    exact ih swept

/-- To collapse a queue in place is to collapse it, and no index is out of range. -/
theorem collapseInPlace_eq (queue : Queue) : queue.collapseInPlace = queue.collapse.indexed := by
  rw [collapseInPlace, collapse, foldlM_rescan, Reduction.indexed_bind]

end Queue

end Qualifier
