import Mathlib.Data.List.Forall2
import Qualifier.Proofs.Folding

/-!
# Spellings and positions

A queue holds more than what it computes with: literals keep their spelling, and every entry its
position. Both are read while the queue is collapsed. Each `as` takes the spelling on its right for
the label, and a division by zero tells its position. The main statement is
`Queue.collapse_of_map_content_eq`: none of this reaches the value, and of all spellings only one
can reach the label in the end, that of a last operand that stands directly behind `as`.

Two queues with the same values and operators are the queues of two trees that differ in spellings
and positions only (`Tree.Alike`). Such trees have the same value, since no operator hands a
spelling on, and whatever other nodes have done to the label, the root has the last word
(`Tree.Alike.rootName?_eq`).
-/

namespace Qualifier

/-- What an entry computes with: the value of an operand, or an operator. -/
def Entry.content : Entry → Value ⊕ Operator
  | .operand value _ _ => .inl value
  | .operator op _ => .inr op

/-- The spelling that an entry carries. -/
def Entry.literal? : Entry → Option String
  | .operand _ literal _ => literal
  | .operator .. => none

namespace Queue

/-- The operators of a queue. -/
def operators (queue : Queue) : List Operator :=
  queue.filterMap (·.content.getRight?)

/-- The last operator of a queue. -/
def lastOperator? (queue : Queue) : Option Operator :=
  queue.operators.getLast?

/-- The spelling that the last entry of a queue carries. -/
def lastLiteral? (queue : Queue) : Option String :=
  queue.getLast?.bind Entry.literal?

theorem lastOperator?_append (left : Queue) (op : Operator) (position : Nat) (right : Queue) :
    lastOperator? (left ++ .operator op position :: right) =
      right.lastOperator?.or (some op) := by
  have hoperators : operators (left ++ .operator op position :: right) =
      left.operators ++ op :: right.operators :=
    List.filterMap_append
  rw [lastOperator?, hoperators, List.getLast?_append, List.getLast?_cons, Option.some_or,
    lastOperator?]
  cases right.operators.getLast? <;> rfl

theorem lastLiteral?_append_singleton (queue : Queue) (entry : Entry) :
    lastLiteral? (queue ++ [entry]) = entry.literal? := by
  rw [lastLiteral?, List.getLast?_concat]
  rfl

/-- The last operator of a queue is one of its operators. -/
theorem exists_mem_of_lastOperator? {queue : Queue} {op : Operator}
    (h : queue.lastOperator? = some op) : ∃ position, Entry.operator op position ∈ queue := by
  obtain ⟨entry, hmem, hentry⟩ := List.mem_filterMap.1 (List.mem_of_getLast? h)
  cases entry with
  | operand => cases hentry
  | operator op' position =>
    cases hentry
    exact ⟨position, hmem⟩

end Queue

/-! ### Trees that differ in spellings and positions -/

namespace Tree

/-- Without parentheses, two trees have the same operators between operands of the same values. -/
inductive Alike : Tree Known → Tree Known → Prop
  /-- Two operands have the same value. -/
  | leaf {operand operand' : Known} (h : operand.value = operand'.value) :
    Alike (.leaf operand) (.leaf operand')
  /-- Two nodes have the same operator, and sides that are alike. -/
  | node (op : Operator) (span span' : Span) {left left' right right' : Tree Known}
    (hleft : Alike left left') (hright : Alike right right') :
    Alike (.node op span left right) (.node op span' left' right')

namespace Alike

variable {tree tree' : Tree Known} (h : Alike tree tree')

include h

theorem symm : Alike tree' tree := by
  induction h with
  | leaf h => exact .leaf h.symm
  | node op span span' _ _ ihl ihr => exact .node op span' span ihl ihr

theorem rank_eq : tree'.rank = tree.rank := by
  cases h <;> rfl

theorem wellBound (hbound : tree.WellBound) : tree'.WellBound := by
  induction h with
  | leaf => trivial
  | node op span span' hleft hright ihl ihr =>
    obtain ⟨hl, hr, hleftRank, hrightRank⟩ := hbound
    refine ⟨ihl hl, ihr hr, ?_, ?_⟩
    · rw [hleft.rank_eq]
      exact hleftRank
    · rw [hright.rank_eq]
      exact hrightRank

theorem innerFaults_eq_nil : tree.innerFaults = [] := by
  induction h with
  | leaf => rfl
  | node _ _ _ _ _ ihl ihr => rw [innerFaults, ihl, ihr, List.append_nil]

/-- Spellings and positions do not reach the value. -/
theorem value?_eq : tree.value? = tree'.value? := by
  induction h with
  | leaf h => exact congrArg some h
  | node _ _ _ _ _ ihl ihr => rw [value?, value?, ihl, ihr]

theorem attach {first first' : Tree Known} (hfirst : Alike first first') (op : Operator)
    (span span' : Span) : Alike (attach first op span tree) (attach first' op span' tree') := by
  induction h with
  | leaf h => exact .node op span span' hfirst (.leaf h)
  | node op' place place' hleft hright ihl _ =>
    simp only [Tree.attach]
    split
    · exact .node op' place place' ihl hright
    · exact .node op span span' hfirst (.node op' place place' hleft hright)

/-- The label that the root sets is the same, unless the spelling of the last operand differs that
stands directly behind `as`. -/
theorem rootName?_eq (hlast : tree.entries.lastLiteral? = tree'.entries.lastLiteral? ∨
      tree.entries.lastOperator? ≠ some .naming) : tree.rootName? = tree'.rootName? := by
  cases h with
  | leaf => rfl
  | @node op span span' left left' right right' hleft hright =>
    by_cases hop : op = .naming
    · subst hop
      have hliteral : right.literal? = right'.literal? := by
        cases hright with
        | node => rfl
        | @leaf operand operand' hvalue =>
          rw [entries_node, entries_node] at hlast
          obtain hlast | hlast := hlast
          · rw [List.append_cons, List.append_cons left'.entries] at hlast
            exact (Queue.lastLiteral?_append_singleton _ _).symm.trans
              (hlast.trans (Queue.lastLiteral?_append_singleton _ _))
          · rw [Queue.lastOperator?_append] at hlast
            exact absurd rfl hlast
      show right.name? = right'.name?
      rw [name?, name?, hliteral, hright.value?_eq]
    · cases op with
      | naming => exact absurd rfl hop
      | _ => rfl

end Alike

/-- Without an operator outside of parentheses, a level is one operand. -/
theorem entries_of_lastOperator? {tree : Tree Known} (h : tree.entries.lastOperator? = none)
    (hinner : tree.innerFaults = []) :
    ∃ value, tree.value? = some value ∧
      tree.entries = [.operand value tree.literal? tree.position] := by
  cases tree with
  | leaf operand => exact ⟨operand.value, rfl, rfl⟩
  | group opening closing body =>
    obtain ⟨value, hvalue⟩ := exists_value? hinner rfl
    refine ⟨value, hvalue, ?_⟩
    show [(group opening closing body).entry] = _
    rw [entry, hvalue, Option.getD_some]
  | node op span left right =>
    rw [entries_node, Queue.lastOperator?_append] at h
    cases hright : right.entries.lastOperator? <;> rw [hright] at h <;> cases h

/-- If the last operator of a level is `as`, it is the root, and what stands behind it is the
label. -/
theorem rootName?_of_lastOperator? {tree : Tree Known} (hbound : tree.WellBound)
    (hinner : tree.innerFaults = []) (h : tree.entries.lastOperator? = some .naming)
    {value : Value} {literal : Option String} {position : Nat}
    (hlast : tree.entries.getLast? = some (.operand value literal position)) :
    tree.rootName? = some (literal.getD value.asText) := by
  cases tree with
  | leaf => cases h
  | group => cases h
  | node op span left right =>
    obtain ⟨-, hbound', -, hrank⟩ := hbound
    obtain ⟨-, hinner'⟩ := List.append_eq_nil_iff.1 hinner
    rw [entries_node, Queue.lastOperator?_append] at h
    cases hright : right.entries.lastOperator? with
    | some op' =>
      -- the right side binds more tightly than any `as`
      have hswept : right.entries.Swept .naming :=
        swept_entries hbound' (Nat.le_trans hrank (Nat.le_of_lt_succ op.looseness_lt))
      rw [hright] at h
      cases h
      obtain ⟨place, hmem⟩ := Queue.exists_mem_of_lastOperator? hright
      exact absurd rfl (hswept _ hmem)
    | none =>
      rw [hright] at h
      cases h
      obtain ⟨y, hy, hentries⟩ := entries_of_lastOperator? hright hinner'
      rw [entries_node, hentries, List.append_cons, List.getLast?_concat] at hlast
      cases hlast
      exact name?_eq_some hy

end Tree

/-! ### Queues with the same content -/

theorem Entry.exists_of_content_eq_inl {entry : Entry} {value : Value}
    (h : .inl value = entry.content) :
    ∃ literal position, entry = .operand value literal position := by
  cases entry with
  | operator => cases h
  | operand value' literal position =>
    cases h
    exact ⟨literal, position, rfl⟩

theorem Entry.exists_of_content_eq_inr {entry : Entry} {op : Operator}
    (h : .inr op = entry.content) : ∃ position, entry = .operator op position := by
  cases entry with
  | operand => cases h
  | operator op' position =>
    cases h
    exact ⟨position, rfl⟩

namespace Queue

variable {queue queue' : Queue}

/-- Queues with the same content are the queues of trees that are alike. -/
theorem exists_alike {atEnd : SyntaxError} (h : queue.checkFrom atEnd = .ok ())
    (hcontent : queue.map Entry.content = queue'.map Entry.content) :
    ∃ tree tree' : Tree Known, tree.Alike tree' ∧ tree.WellBound ∧ tree.entries = queue ∧
      tree'.entries = queue' := by
  fun_induction queue.checkFrom atEnd generalizing queue' with
  | case1 => cases h
  | case2 => cases h
  | case3 _ value literal place =>
    obtain ⟨entry', rfl, hentry⟩ := List.map_eq_singleton_iff.1 hcontent.symm
    obtain ⟨literal', place', rfl⟩ := Entry.exists_of_content_eq_inl hentry.symm
    exact ⟨.leaf ⟨value, literal, place⟩, .leaf ⟨value, literal', place'⟩, .leaf rfl, trivial, rfl,
      rfl⟩
  | case4 => cases h
  | case5 _ value literal place op position rest ih =>
    obtain ⟨entry', tail', rfl, hentry, htail⟩ := List.map_eq_cons_iff.1 hcontent.symm
    obtain ⟨next', rest', rfl, hnext, hrest⟩ := List.map_eq_cons_iff.1 htail
    obtain ⟨literal', place', rfl⟩ := Entry.exists_of_content_eq_inl hentry.symm
    obtain ⟨position', rfl⟩ := Entry.exists_of_content_eq_inr hnext.symm
    obtain ⟨tree, tree', halike, hbound, hentries, hentries'⟩ := ih h hrest.symm
    have hleaf : (Tree.leaf ⟨value, literal, place⟩ : Tree Known).WellBound := trivial
    have hfirst : Tree.Alike (.leaf ⟨value, literal, place⟩) (.leaf ⟨value, literal', place'⟩) :=
      .leaf rfl
    refine ⟨_, _, halike.attach hfirst op ⟨position, position⟩ ⟨position', position'⟩,
      hleaf.attach rfl op _ hbound, ?_, ?_⟩
    · rw [Tree.entries_attach, hentries]
      rfl
    · rw [Tree.entries_attach, hentries']
      rfl

/-- Entries at the same index divide, one at each of the places. -/
def DividesAt (queue queue' : Queue) (place place' : Nat) : Prop :=
  ∃ index : Nat, queue[index]? = some (.operator (.arithmetic .divide) place) ∧
    queue'[index]? = some (.operator (.arithmetic .divide) place')

theorem DividesAt.cons {place place' : Nat} (h : DividesAt queue queue' place place')
    (entry entry' : Entry) : DividesAt (entry :: queue) (entry' :: queue') place place' := by
  obtain ⟨index, hindex, hindex'⟩ := h
  exact ⟨index + 1, hindex, hindex'⟩

/-- Queues with the same content divide by zero at the same entries. -/
theorem forall₂_zeroDivisions (hcontent : queue.map Entry.content = queue'.map Entry.content) :
    List.Forall₂ (DividesAt queue queue') queue.zeroDivisions queue'.zeroDivisions := by
  induction queue generalizing queue' with
  | nil =>
    obtain rfl := List.map_eq_nil_iff.1 hcontent.symm
    exact .nil
  | cons entry tail ih =>
    obtain ⟨entry', tail', rfl, hentry, htail⟩ := List.map_eq_cons_iff.1 hcontent.symm
    cases tail with
    | nil =>
      obtain rfl := List.map_eq_nil_iff.1 htail
      exact .nil
    | cons next rest =>
      obtain ⟨next', rest', rfl, hnext, hrest⟩ := List.map_eq_cons_iff.1 htail
      have hbehind := (ih htail.symm).imp fun _ _ h ↦ h.cons entry entry'
      rw [zeroDivisions_cons_cons, zeroDivisions_cons_cons]
      cases entry with
      | operand =>
        obtain ⟨_, _, rfl⟩ := Entry.exists_of_content_eq_inl hentry.symm
        exact hbehind
      | operator op position =>
        obtain ⟨position', rfl⟩ := Entry.exists_of_content_eq_inr hentry.symm
        cases next with
        | operator =>
          obtain ⟨_, rfl⟩ := Entry.exists_of_content_eq_inr hnext.symm
          exact hbehind
        | operand right =>
          obtain ⟨_, _, rfl⟩ := Entry.exists_of_content_eq_inl hnext.symm
          simp only [Entry.zeroDivision?]
          split
          · next hzero =>
            obtain ⟨rfl, -⟩ := hzero
            exact .cons ⟨0, rfl, rfl⟩ hbehind
          · exact hbehind

variable {ledger ledger' : Ledger}

/-- Spellings and positions do not reach the value of a queue. Of two queues with the same content,
of which one is well formed, both collapse to the same value, or both fail at entries at the same
index that divide by zero. If they leave different labels, having been given the same one, then
their last operator is `as` and they differ in the spelling of what stands behind it; and that
spelling does become the label. -/
theorem collapse_of_map_content_eq {position : Nat} (h : queue.check position = .ok ())
    (hcontent : queue.map Entry.content = queue'.map Entry.content)
    (hlabel : ledger.label = ledger'.label) :
    ((∃ value, (queue.collapse.run ledger).1 = .ok value ∧
        (queue'.collapse.run ledger').1 = .ok value) ∨
      ∃ place place', DividesAt queue queue' place place' ∧
        (queue.collapse.run ledger).1 = .error (.failed (.divisionByZero (some place))) ∧
        (queue'.collapse.run ledger').1 = .error (.failed (.divisionByZero (some place')))) ∧
      (queue.lastLiteral? = queue'.lastLiteral? ∨ queue.lastOperator? ≠ some .naming →
        (queue.collapse.run ledger).2.label = (queue'.collapse.run ledger').2.label) ∧
      ∀ result value literal place, (queue.collapse.run ledger).1 = .ok result →
        queue.lastOperator? = some .naming →
        queue.getLast? = some (.operand value literal place) →
          (queue.collapse.run ledger).2.label = literal.getD value.asText := by
  have hzero := forall₂_zeroDivisions hcontent
  obtain ⟨tree, tree', halike, hbound, rfl, rfl⟩ := exists_alike h hcontent
  have hbound' := halike.wellBound hbound
  have hinner := halike.innerFaults_eq_nil
  have hinner' := halike.symm.innerFaults_eq_nil
  rw [Tree.zeroDivisions_entries hbound hinner, Tree.zeroDivisions_entries hbound' hinner'] at hzero
  cases hfaults : tree.levelFaults with
  | cons place more =>
    rw [hfaults] at hzero
    obtain ⟨place', more', hdivides, -, hfaults'⟩ := List.forall₂_cons_left_iff.1 hzero
    obtain ⟨trail, hrun⟩ := Tree.collapse_of_levelFaults hbound hinner hfaults ledger
    obtain ⟨trail', hrun'⟩ := Tree.collapse_of_levelFaults hbound' hinner' hfaults' ledger'
    rw [hrun, hrun']
    exact ⟨.inr ⟨place, place', hdivides, rfl, rfl⟩, fun _ ↦ hlabel, nofun⟩
  | nil =>
    rw [hfaults] at hzero
    have hfaults' := List.forall₂_nil_left_iff.1 hzero
    obtain ⟨trail, hrun⟩ := Tree.collapse_entries hbound hinner hfaults ledger
    obtain ⟨trail', hrun'⟩ := Tree.collapse_entries hbound' hinner' hfaults' ledger'
    rw [hrun, hrun', ← halike.value?_eq, ← hlabel]
    refine ⟨.inl ⟨_, rfl, rfl⟩, fun hlast ↦ ?_, fun _ value literal place _ hnaming hlast ↦ ?_⟩
    · rw [halike.rootName?_eq hlast]
    · rw [Tree.rootName?_of_lastOperator? hbound hinner hnaming hlast, Option.getD_some]

/-- In `true as a as b` the spelling of `a` does not matter, and that of `b` becomes the label. -/
theorem collapse_of_map_content_eq_but_last :
    let queue (between last : Option String) (start : Nat) : Queue :=
      [.operand (.bool true) none start, .operator .naming (start + 5),
        .operand (.string "a") between (start + 8), .operator .naming (start + 10),
        .operand (.string "b") last (start + 13)]
    let ledger : Ledger := ⟨"start", #[]⟩
    let run (queue : Queue) := queue.collapse.run ledger
    (queue (some "A") (some "B") 0).check 0 = .ok () ∧
      (∀ between last start,
        (queue (some "A") (some "B") 0).map Entry.content =
          (queue between last start).map Entry.content) ∧
      (run (queue (some "A") (some "B") 0)).1 = .ok (.bool true) ∧
      (run (queue none (some "B") 7)).1 = .ok (.bool true) ∧
      (run (queue (some "A") (some "B") 0)).2.label = (run (queue none (some "B") 7)).2.label ∧
      (run (queue (some "A") (some "B") 0)).2.label = "B" ∧
      (run (queue (some "A") none 0)).2.label = "b" := by
  intro queue ledger run
  have hcheck (between last start) : (queue between last start).check 0 = .ok () := rfl
  have hcontent (between last start) : (queue (some "A") (some "B") 0).map Entry.content =
      (queue between last start).map Entry.content := rfl
  have hvalue (between last start) : (run (queue between last start)).1 = .ok (.bool true) := rfl
  have hstart : ledger.label = ledger.label := rfl
  obtain ⟨-, hlabels, hlabel⟩ := collapse_of_map_content_eq (hcheck (some "A") (some "B") 0)
    (hcontent none (some "B") 7) hstart
  obtain ⟨-, -, hlabel'⟩ := collapse_of_map_content_eq (hcheck (some "A") none 0)
    (hcontent none none 7) hstart
  exact ⟨hcheck _ _ _, hcontent, hvalue _ _ _, hvalue _ _ _, hlabels (.inl rfl),
    hlabel _ _ _ _ (hvalue _ _ _) rfl rfl, hlabel' _ _ _ _ (hvalue _ _ _) rfl rfl⟩

end Queue

end Qualifier
