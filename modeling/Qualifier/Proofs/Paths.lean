import Mathlib.Data.List.Induction
import Qualifier.Operand
import Qualifier.Proofs.Rounding

/-!
# Dotted paths

Where a dotted path leads. A path is a text: looking it up cuts the text at its dots and walks into
a datum by the pieces, some of which are keys and some indices. Where it should lead is a matter of
the data alone. `Host.Reaches` and `Host.Leaves` say which segments lead to a part of a datum, and
which lead out of it. An object takes every segment as a key, even one of digits only, and an array
takes every segment as the spelling of a number (`Text.SpellsUnsigned`), zeros in front of which do
not count. What the part is worth in an expression is a matter of the part alone (`Host.Adapts`):
an integer goes to the nearest double, and sequences and objects are nothing.

The main statement is `Operand.lookUp_dotted`. Between the text and the walk stands
`Operand.ofText_dotted`, that segments without dots survive being joined and cut. Between the walk
and the relations stand `Host.child?_eq_some_iff` and `Host.child?_eq_none_iff`, one step each, and
`Text.word?_eq_some_iff`, that a segment is read as an index exactly if it spells one.
-/

namespace Qualifier

/-! ### Indices -/

/-- Digits are zeros, and behind them the digits of the number that they spell. -/
theorem Decimal.exists_eq_replicate_append {digits : List Char} (hne : digits ≠ [])
    (h : ∀ c ∈ digits, c.isDigit = true) :
    ∃ zeros, digits = List.replicate zeros '0' ++ toDigits (ofDigits digits) := by
  induction digits using List.reverseRecOn with
  | nil => exact absurd rfl hne
  | append_singleton before c ih =>
    obtain ⟨hbefore, hc⟩ := List.forall_mem_append.1 h
    have hlast : c.isDigit = true := hc c (List.mem_singleton_self c)
    have hlt := digitValue_lt hlast
    rw [ofDigits_append_singleton]
    by_cases hzero : ofDigits before = 0
    · -- all that precedes the last digit are zeros
      have hdigits : toDigits (10 * ofDigits before + digitValue c) = [c] := by
        rw [hzero, Nat.mul_zero, Nat.zero_add, toDigits_of_lt hlt, digitChar_digitValue hlast]
      rw [hdigits]
      cases before with
      | nil => exact ⟨0, rfl⟩
      | cons first rest =>
        obtain ⟨zeros, hzeros⟩ := ih (List.cons_ne_nil _ _) hbefore
        have hdigit : toDigits 0 = ['0'] := toDigits_of_lt (by decide)
        rw [hzero, hdigit] at hzeros
        exact ⟨zeros + 1, by rw [List.replicate_succ', hzeros]⟩
    · have hbefore' : before ≠ [] := by
        rintro rfl
        exact hzero rfl
      obtain ⟨zeros, hzeros⟩ := ih hbefore' hbefore
      refine ⟨zeros, ?_⟩
      rw [toDigits_append hzero hlt, digitChar_digitValue hlast, ← List.append_assoc, ← hzeros]

namespace Text

/-- A number as it may be written: its digits, after any number of zeros. -/
def padded (zeros n : Nat) : List Char :=
  List.replicate zeros '0' ++ Decimal.toDigits n

/-- The text spells an unsigned number. -/
inductive SpellsUnsigned (n : Nat) : List Char → Prop
  /-- In digits. -/
  | plain (zeros : Nat) : SpellsUnsigned n (padded zeros n)
  /-- In digits after a plus sign. -/
  | signed (zeros : Nat) : SpellsUnsigned n ('+' :: padded zeros n)

theorem padded_ne_nil (zeros n : Nat) : padded zeros n ≠ [] :=
  List.append_ne_nil_of_right_ne_nil _ (Decimal.toDigits_ne_nil n)

theorem isDigit_of_mem_padded {zeros n : Nat} {c : Char} (h : c ∈ padded zeros n) :
    c.isDigit = true := by
  rcases List.mem_append.1 h with h | h
  · rw [List.eq_of_mem_replicate h]
    rfl
  · exact Decimal.isDigit_of_mem_toDigits h

theorem ofDigits_padded (zeros n : Nat) : Decimal.ofDigits (padded zeros n) = n := by
  rw [padded, Decimal.ofDigits_replicate_append, Decimal.ofDigits_toDigits]

theorem eq_dropPlus_or (cs : List Char) : cs = dropPlus cs ∨ cs = '+' :: dropPlus cs := by
  rw [dropPlus.eq_def]
  split
  · exact .inr rfl
  · exact .inl rfl

theorem SpellsUnsigned.exists_dropPlus {cs : List Char} {n : Nat} (h : SpellsUnsigned n cs) :
    ∃ zeros, dropPlus cs = padded zeros n := by
  cases h with
  | signed zeros => exact ⟨zeros, rfl⟩
  | plain zeros =>
    refine ⟨zeros, ?_⟩
    obtain hplus | hplus := eq_dropPlus_or (padded zeros n)
    · exact hplus.symm
    · -- a plus sign is no digit
      have hmem : '+' ∈ padded zeros n := by
        rw [hplus]
        exact List.mem_cons_self
      exact absurd (isDigit_of_mem_padded hmem) (by decide)

/-- A text spells one number at most. -/
theorem SpellsUnsigned.eq {cs : List Char} {n m : Nat} (h : SpellsUnsigned n cs)
    (h' : SpellsUnsigned m cs) : n = m := by
  obtain ⟨zeros, hzeros⟩ := h.exists_dropPlus
  obtain ⟨zeros', hzeros'⟩ := h'.exists_dropPlus
  rw [← ofDigits_padded zeros n, ← hzeros, hzeros', ofDigits_padded]

/-- A text is read as a word exactly if it spells a number that fits one. -/
theorem word?_eq_some_iff {cs : List Char} {n : Nat} :
    word? cs = some n ↔ SpellsUnsigned n cs ∧ n < wordBound := by
  constructor
  · intro h
    refine ⟨?_, word?_lt h⟩
    simp only [word?] at h
    split at h
    · next hdigits =>
      obtain ⟨hne, hall, -⟩ := hdigits
      obtain ⟨zeros, hzeros⟩ := Decimal.exists_eq_replicate_append hne (List.all_eq_true.1 hall)
      rw [Option.some.inj h] at hzeros
      obtain hcs | hcs := eq_dropPlus_or cs
      · rw [hcs, hzeros]
        exact .plain zeros
      · rw [hcs, hzeros]
        exact .signed zeros
    · cases h
  · rintro ⟨hspells, hlt⟩
    obtain ⟨zeros, hdigits⟩ := hspells.exists_dropPlus
    have hall : (padded zeros n).all Char.isDigit :=
      List.all_eq_true.2 fun _ ↦ isDigit_of_mem_padded
    rw [word?, hdigits, ofDigits_padded]
    exact if_pos ⟨padded_ne_nil zeros n, hall, hlt⟩

end Text

/-! ### Parts of a datum -/

namespace Host

/-- A datum without parts. -/
def IsScalar : Host → Prop
  | .null | .bool _ | .number _ | .string _ => True
  | .array _ | .object _ => False

/-- A segment names a part of a datum. -/
inductive IsPart : Host → String → Host → Prop
  /-- A key names a field of an object. -/
  | field {fields : Dict Host} {key : String} {part : Host} (h : fields.find? key = some part) :
    IsPart (.object fields) key part
  /-- The spelling of an index names an item of an array. -/
  | item {items : List Host} {segment : String} {index : Nat} {part : Host}
    (hspells : Text.SpellsUnsigned index segment.toList) (hfits : index < Text.wordBound)
    (h : items[index]? = some part) : IsPart (.array items) segment part

/-- A segment names no part of a datum. -/
inductive IsNoPart : Host → String → Prop
  /-- There are no parts. -/
  | scalar {datum : Host} (segment : String) (h : datum.IsScalar) : IsNoPart datum segment
  /-- The object has no such field. -/
  | field {fields : Dict Host} {key : String} (h : fields.find? key = none) :
    IsNoPart (.object fields) key
  /-- The index is out of bounds. -/
  | outOfBounds {items : List Host} {segment : String} {index : Nat}
    (hspells : Text.SpellsUnsigned index segment.toList) (h : items.length ≤ index) :
    IsNoPart (.array items) segment
  /-- The index is none that a machine could have. -/
  | tooLarge {items : List Host} {segment : String} {index : Nat}
    (hspells : Text.SpellsUnsigned index segment.toList) (h : Text.wordBound ≤ index) :
    IsNoPart (.array items) segment
  /-- The segment spells no index. -/
  | noIndex {items : List Host} {segment : String}
    (h : ∀ index, ¬Text.SpellsUnsigned index segment.toList) : IsNoPart (.array items) segment

variable {datum part : Host} {segment : String}

/-- A segment does not both name a part and name none. -/
theorem IsNoPart.not_isPart (h : IsNoPart datum segment) : ¬IsPart datum segment part := by
  intro hpart
  cases hpart with
  | field hfield =>
    cases h with
    | scalar _ h => exact h.elim
    | field h =>
      rw [hfield] at h
      cases h
  | item hspells hfits hitem =>
    cases h with
    | scalar _ h => exact h.elim
    | outOfBounds hspells' h =>
      rw [hspells.eq hspells', List.getElem?_eq_none_iff.2 h] at hitem
      cases hitem
    | tooLarge hspells' h =>
      rw [hspells.eq hspells'] at hfits
      exact Nat.not_le_of_lt hfits h
    | noIndex h => exact h _ hspells

theorem child?_array (items : List Host) (segment : String) :
    (array items).child? segment =
      (Text.word? segment.toList).bind fun index ↦ items[index]? :=
  rfl

/-- What the walk steps to is the part that the segment names. -/
theorem child?_eq_some_iff : datum.child? segment = some part ↔ IsPart datum segment part := by
  constructor
  · intro h
    cases datum with
    | null | bool | number | string => cases h
    | object fields => exact .field h
    | array items =>
      rw [child?_array, Option.bind_eq_some_iff] at h
      obtain ⟨index, hindex, hitem⟩ := h
      obtain ⟨hspells, hfits⟩ := Text.word?_eq_some_iff.1 hindex
      exact .item hspells hfits hitem
  · intro h
    cases h with
    | field h => exact h
    | item hspells hfits h =>
      rw [child?_array, Text.word?_eq_some_iff.2 ⟨hspells, hfits⟩]
      exact h

/-- The walk ends at a segment that names no part. -/
theorem child?_eq_none_iff : datum.child? segment = none ↔ IsNoPart datum segment := by
  constructor
  · intro h
    cases datum with
    | null | bool | number | string => exact .scalar segment trivial
    | object fields => exact .field h
    | array items =>
      by_cases hspells : ∃ index, Text.SpellsUnsigned index segment.toList
      · obtain ⟨index, hspells⟩ := hspells
        by_cases hfits : index < Text.wordBound
        · rw [child?_array, Text.word?_eq_some_iff.2 ⟨hspells, hfits⟩] at h
          exact .outOfBounds hspells (List.getElem?_eq_none_iff.1 h)
        · exact .tooLarge hspells (Nat.not_lt.1 hfits)
      · exact .noIndex fun index h ↦ hspells ⟨index, h⟩
  · intro h
    exact Option.eq_none_iff_forall_ne_some.2 fun part hpart ↦
      h.not_isPart (child?_eq_some_iff.1 hpart)

/-! ### Paths -/

/-- The segments lead from a datum to a part of it, however deep. -/
inductive Reaches : Host → List String → Host → Prop
  /-- Without segments the datum itself is reached. -/
  | here (datum : Host) : Reaches datum [] datum
  /-- The first segment names a part, and the others lead on from there. -/
  | step {datum next part : Host} {segment : String} {rest : List String}
    (h : IsPart datum segment next) (hrest : Reaches next rest part) :
    Reaches datum (segment :: rest) part

/-- The segments lead out of a datum. -/
inductive Leaves : Host → List String → Prop
  /-- The first segment names no part. -/
  | here {datum : Host} {segment : String} (rest : List String) (h : IsNoPart datum segment) :
    Leaves datum (segment :: rest)
  /-- The first segment names a part, and the others lead out of that. -/
  | step {datum next : Host} {segment : String} {rest : List String}
    (h : IsPart datum segment next) (hrest : Leaves next rest) : Leaves datum (segment :: rest)

variable {segments : List String}

/-- The walk arrives at the part that the segments lead to. -/
theorem Reaches.descend_append (h : datum.Reaches segments part) (more : List String) :
    datum.descend (segments ++ more) = part.descend more := by
  induction h with
  | here => rfl
  | step hpart _ ih =>
    rw [List.cons_append, descend, child?_eq_some_iff.2 hpart]
    exact ih

theorem Reaches.descend_eq (h : datum.Reaches segments part) :
    datum.descend segments = .ok part := by
  have hwalk := h.descend_append []
  rwa [List.append_nil] at hwalk

theorem reaches_of_descend (h : datum.descend segments = .ok part) :
    datum.Reaches segments part := by
  induction segments generalizing datum with
  | nil =>
    cases h
    exact .here _
  | cons segment rest ih =>
    rw [descend] at h
    split at h
    · next next hchild => exact .step (child?_eq_some_iff.1 hchild) (ih h)
    · cases h

/-- The walk ends at a segment that leads out of the datum. -/
theorem Leaves.descend_eq (h : datum.Leaves segments) :
    ∃ segment ∈ segments, datum.descend segments = .error segment := by
  induction h with
  | @here datum segment rest h =>
    refine ⟨segment, List.mem_cons_self, ?_⟩
    rw [descend, child?_eq_none_iff.2 h]
  | step hpart _ ih =>
    obtain ⟨segment, hmem, hwalk⟩ := ih
    refine ⟨segment, List.mem_cons_of_mem _ hmem, ?_⟩
    rw [descend, child?_eq_some_iff.2 hpart]
    exact hwalk

theorem leaves_of_descend (h : datum.descend segments = .error segment) :
    datum.Leaves segments := by
  induction segments generalizing datum with
  | nil => cases h
  | cons first rest ih =>
    rw [descend] at h
    split at h
    · next next hchild => exact .step (child?_eq_some_iff.1 hchild) (ih h)
    · next hchild => exact .here rest (child?_eq_none_iff.1 hchild)

/-- Segments lead to a part exactly if they do not lead out. -/
theorem exists_reaches_iff : (∃ part, datum.Reaches segments part) ↔ ¬datum.Leaves segments := by
  constructor
  · rintro ⟨part, h⟩ hleaves
    obtain ⟨segment, -, hwalk⟩ := hleaves.descend_eq
    rw [h.descend_eq] at hwalk
    cases hwalk
  · intro h
    cases hwalk : datum.descend segments with
    | error => exact absurd (leaves_of_descend hwalk) h
    | ok part => exact ⟨part, reaches_of_descend hwalk⟩

/-- What leads out cannot lead back in. -/
theorem Leaves.append (h : datum.Leaves segments) (more : List String) :
    datum.Leaves (segments ++ more) := by
  induction h with
  | here rest h => exact .here _ h
  | step hpart _ ih => exact .step hpart ih

/-- What leads out of a part leads out of the datum. -/
theorem Reaches.leaves_append {more : List String} (h : datum.Reaches segments part)
    (hmore : part.Leaves more) : datum.Leaves (segments ++ more) := by
  induction h with
  | here => exact hmore
  | step hpart _ ih => exact .step hpart (ih hmore)

/-- Every segment leads out of a datum without parts. -/
theorem IsScalar.leaves (h : datum.IsScalar) (hne : segments ≠ []) : datum.Leaves segments := by
  cases segments with
  | nil => exact absurd rfl hne
  | cons segment rest => exact .here rest (.scalar segment h)

end Host

/-! ### Values of data -/

namespace Host

/-- A datum counts as a value in expressions. -/
inductive Adapts : Host → Value → Prop
  /-- Truth values stay what they are, -/
  | bool (b : Bool) : Adapts (.bool b) (.bool b)
  /-- texts do, -/
  | string (s : String) : Adapts (.string s) (.string s)
  /-- and doubles. -/
  | real (negative : Bool) (rank : Fin Double.rankBound) :
    Adapts (.number (.real negative rank)) (.number (.finite negative rank))
  /-- An integer is rounded to a double. -/
  | integer {n : Int} (fits : Number.Fits n) {x : Double}
    (h : Double.Rounds (decide (n < 0)) n.natAbs x) :
    Adapts (.number (.integer n fits)) (.number x)
  /-- The absence of data is nothing, -/
  | null : Adapts .null .null
  /-- and so are sequences -/
  | array (items : List Host) : Adapts (.array items) .null
  /-- and objects. -/
  | object (fields : Dict Host) : Adapts (.object fields) .null

theorem adapts_ofHost (datum : Host) : datum.Adapts (.ofHost datum) := by
  cases datum with
  | null => exact .null
  | bool b => exact .bool b
  | string s => exact .string s
  | array items => exact .array items
  | object fields => exact .object fields
  | number n =>
    cases n with
    | integer n fits => exact .integer fits (Double.rounds_ofInt n)
    | real negative rank => exact .real negative rank

end Host

/-! ### Texts of paths -/

namespace Operand

/-- The text of a path: its sign, its root, and its segments, each behind a dot. -/
def dotted (root : String) (segments : List String) : String :=
  "$" ++ pathText root segments

/-- The text has no dot in it. -/
def IsDotless (text : String) : Prop :=
  '.' ∉ text.toList

instance : DecidablePred IsDotless :=
  fun text ↦ inferInstanceAs (Decidable ('.' ∉ text.toList))

theorem splitDots_of_notMem {cs : List Char} (h : '.' ∉ cs) : splitDots cs = (cs, []) := by
  induction cs with
  | nil => rfl
  | cons c rest ih =>
    obtain ⟨hc, hrest⟩ := not_or.1 (mt List.mem_cons.2 h)
    rw [splitDots, ih hrest]
    exact if_neg (Ne.symm hc)

theorem splitDots_append {cs : List Char} (h : '.' ∉ cs) (rest : List Char) :
    splitDots (cs ++ '.' :: rest) = (cs, (splitDots rest).1 :: (splitDots rest).2) := by
  induction cs with
  | nil => rfl
  | cons c cs ih =>
    obtain ⟨hc, hcs⟩ := not_or.1 (mt List.mem_cons.2 h)
    rw [List.cons_append, splitDots, ih hcs]
    exact if_neg (Ne.symm hc)

/-- Segments without dots are what the text of their path is cut into. -/
theorem splitDots_pathText {root : String} (hroot : IsDotless root) {segments : List String}
    (h : ∀ segment ∈ segments, IsDotless segment) :
    splitDots (pathText root segments).toList = (root.toList, segments.map String.toList) := by
  induction segments generalizing root with
  | nil => exact splitDots_of_notMem hroot
  | cons segment rest ih =>
    obtain ⟨hsegment, hrest⟩ := List.forall_mem_cons.1 h
    have htext : (pathText root (segment :: rest)).toList =
        root.toList ++ '.' :: (pathText segment rest).toList := by
      simp [pathText]
    rw [htext, splitDots_append hroot, ih hsegment hrest]
    rfl

/-- So the operand that the text spells is the path. -/
theorem ofText_dotted {root : String} (hroot : IsDotless root) {segments : List String}
    (h : ∀ segment ∈ segments, IsDotless segment) :
    ofText (dotted root segments) = .path root segments := by
  have htext : (dotted root segments).toList = '$' :: (pathText root segments).toList := by
    simp [dotted]
  rw [ofText, htext]
  simp only [splitDots_pathText hroot h, String.ofList_toList, List.map_map]
  congr 1
  exact List.map_id'' (fun _ ↦ String.ofList_toList) segments

/-! ### Looking paths up -/

section

variable {σ : Type} (env : Environment σ) {root : String} {datum : Host} {segments : List String}
  (hroot : IsDotless root) (hbound : env.datum? root = some datum)
  (hsegments : ∀ segment ∈ segments, IsDotless segment) (progress : Progress σ)

include hroot hbound hsegments

theorem lookUp_of_reaches {part : Host} (h : datum.Reaches segments part) :
    (ofText (dotted root segments)).lookUp env progress = (.ofHost part, progress) := by
  simp only [ofText_dotted hroot hsegments, lookUp, hbound, h.descend_eq]

theorem lookUp_of_leaves (h : datum.Leaves segments) :
    ∃ segment ∈ segments, (ofText (dotted root segments)).lookUp env progress =
      (.null, progress.note (.missingSegment (pathText root segments) segment)) := by
  obtain ⟨segment, hmem, hwalk⟩ := h.descend_eq
  refine ⟨segment, hmem, ?_⟩
  simp only [ofText_dotted hroot hsegments, lookUp, hbound, hwalk]

/-- From the part that a path leads to, it goes on as a path that starts there. -/
theorem lookUp_append_of_reaches {part : Host} (h : datum.Reaches segments part)
    {more : List String} (hmore : ∀ segment ∈ more, IsDotless segment) {τ : Type}
    (env' : Environment τ) {root' : String} (hroot' : IsDotless root')
    (hbound' : env'.datum? root' = some part) (progress' : Progress τ) :
    ((ofText (dotted root (segments ++ more))).lookUp env progress).1 =
      ((ofText (dotted root' more)).lookUp env' progress').1 := by
  have hall := List.forall_mem_append.2 ⟨hsegments, hmore⟩
  simp only [ofText_dotted hroot hall, ofText_dotted hroot' hmore, lookUp, hbound, hbound',
    h.descend_append]
  cases part.descend more <;> rfl

/-- A dotted path has the value that the part of the datum counts as to which it leads: a truth
value or a text as it stands, a number as a double, and nothing for an array or an object. A path that leads out of the datum has nothing for a value, and
all that happens is that the segment which names no part is noted; so it stays when the path is
dotted on, and so it is with a path that is dotted on from a scalar. Every path is of one of the two
kinds. From the part that it leads to, a path is dotted on as a path that starts there. -/
theorem lookUp_dotted :
    ((∃ part, datum.Reaches segments part) ↔ ¬datum.Leaves segments) ∧
      (∀ part, datum.Reaches segments part →
        (ofText (dotted root segments)).lookUp env progress = (.ofHost part, progress) ∧
          part.Adapts (.ofHost part) ∧ (¬part.IsScalar → Value.ofHost part = .null)) ∧
      (datum.Leaves segments →
        ∃ segment ∈ segments, (ofText (dotted root segments)).lookUp env progress =
          (.null, progress.note (.missingSegment (pathText root segments) segment))) ∧
      ∀ more, (∀ segment ∈ more, IsDotless segment) →
        (datum.Leaves segments →
          ((ofText (dotted root (segments ++ more))).lookUp env progress).1 = .null) ∧
        ∀ part, datum.Reaches segments part →
          (part.IsScalar → more ≠ [] →
            ((ofText (dotted root (segments ++ more))).lookUp env progress).1 = .null) ∧
          ∀ {τ : Type} (env' : Environment τ) (root' : String) (progress' : Progress τ),
            IsDotless root' → env'.datum? root' = some part →
              ((ofText (dotted root (segments ++ more))).lookUp env progress).1 =
                ((ofText (dotted root' more)).lookUp env' progress').1 := by
  refine ⟨Host.exists_reaches_iff, fun part hreaches ↦ ⟨?_, part.adapts_ofHost, ?_⟩,
    fun hleaves ↦ ?_, fun more hmore ↦ ?_⟩
  · exact lookUp_of_reaches env hroot hbound hsegments progress hreaches
  · intro hscalar
    cases part with
    | array | object => rfl
    | null | bool | number | string => exact absurd trivial hscalar
  · exact lookUp_of_leaves env hroot hbound hsegments progress hleaves
  have hall := List.forall_mem_append.2 ⟨hsegments, hmore⟩
  have hnull (h : datum.Leaves (segments ++ more)) :
      ((ofText (dotted root (segments ++ more))).lookUp env progress).1 = .null := by
    obtain ⟨_, -, hlookUp⟩ := lookUp_of_leaves env hroot hbound hall progress h
    rw [hlookUp]
  refine ⟨fun hleaves ↦ hnull (hleaves.append more), fun part hreaches ↦ ⟨?_, ?_⟩⟩
  · exact fun hscalar hne ↦ hnull (hreaches.leaves_append (hscalar.leaves hne))
  · intro τ env' root' progress' hroot' hbound'
    exact lookUp_append_of_reaches env hroot hbound hsegments progress hreaches hmore env' hroot'
      hbound' progress'

end

/-- In `$env.hosts.001.0` the second segment is an index and the third a key. An index of more than
64 bits is none, and does not come round to the same item. The integer behind `2 ^ 53` is no double,
and is rounded to that number. -/
theorem lookUp_dotted_of_config :
    let datum : Host := .object (Dict.ofList [
      ("hosts", .array [.null, .object (Dict.ofList [("0", .string "x")])]),
      ("id", .number (.integer 0x20000000000001 (by decide))), ("up", .bool true)])
    let env : Environment Unit :=
      ⟨fun name ↦ if name = "env" then some datum else none, fun _ ↦ none⟩
    let value (text : String) : Value := ((ofText text).lookUp env ⟨⟨"", #[]⟩, ()⟩).1
    env.datum? "env" = some datum ∧
      datum.Reaches ["hosts", "001", "0"] (.string "x") ∧
      datum.Leaves ["hosts", "18446744073709551617"] ∧
      value (dotted "env" ["hosts", "001", "0"]) = .string "x" ∧
      value (dotted "env" ["id"]) = .number (.finite false ⟨0x4340000000000000, by decide⟩) ∧
      value (dotted "env" ["up"]) = .bool true ∧
      value (dotted "env" ["hosts"]) = .null ∧
      value (dotted "env" ["hosts", "18446744073709551617"]) = .null ∧
      value (dotted "env" (["hosts", "001", "0"] ++ [""])) = .null := by
  intro datum env value
  have hroot : IsDotless "env" := by decide
  have hbound : env.datum? "env" = some datum := rfl
  have hleaf (segments : List String) (h : ∀ segment ∈ segments, IsDotless segment) {part : Host}
      (hwalk : datum.descend segments = .ok part) :
      value (dotted "env" segments) = .ofHost part := by
    obtain ⟨-, hvalue, -⟩ := lookUp_dotted env hroot hbound h ⟨⟨"", #[]⟩, ()⟩
    exact congrArg Prod.fst (hvalue part (Host.reaches_of_descend hwalk)).1
  have hsegments : ∀ segment ∈ ["hosts", "001", "0"], IsDotless segment := by decide
  have hsegments' : ∀ segment ∈ ["hosts", "18446744073709551617"], IsDotless segment := by decide
  have hempty : ∀ segment ∈ [""], IsDotless segment := by decide
  have hreaches : datum.Reaches ["hosts", "001", "0"] (.string "x") :=
    Host.reaches_of_descend rfl
  have hleaves : datum.Leaves ["hosts", "18446744073709551617"] := Host.leaves_of_descend rfl
  have hrounded : Double.ofInt 0x20000000000001 = .finite false ⟨0x4340000000000000, by decide⟩ := by
    decide +kernel
  obtain ⟨-, -, -, hmore⟩ := lookUp_dotted env hroot hbound hsegments ⟨⟨"", #[]⟩, ()⟩
  obtain ⟨-, -, hnull, -⟩ := lookUp_dotted env hroot hbound hsegments' ⟨⟨"", #[]⟩, ()⟩
  obtain ⟨segment, -, hlookUp⟩ := hnull hleaves
  refine ⟨hbound, hreaches, hleaves, hleaf _ hsegments rfl, ?_, hleaf ["up"] (by decide) rfl,
    hleaf ["hosts"] (by decide) rfl, ?_, ?_⟩
  · exact (hleaf ["id"] (by decide) rfl).trans (congrArg Value.number hrounded)
  · exact congrArg Prod.fst hlookUp
  · exact ((hmore [""] hempty).2 _ hreaches).1 trivial (List.cons_ne_nil _ _)

end Operand

end Qualifier
