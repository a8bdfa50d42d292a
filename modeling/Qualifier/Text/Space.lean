/-!
# White space

The `White_Space` property of Unicode, and trimming by it. Numerals and operands are trimmed by
this wide notion; the blanks that separate lexemes are a narrower one and live with the tokens.

Texts are lists of characters here, so that a law about trimming is a law about `List.dropWhile`.
`exists_trim` says what trimming takes away, and `trim_append` that what it takes away does not
count.
-/

namespace Qualifier.Text

/-- The code points with the `White_Space` property, as inclusive ranges in increasing order. -/
def spaceRanges : List (Nat × Nat) :=
  [(0x9, 0xD), (0x20, 0x20), (0x85, 0x85), (0xA0, 0xA0), (0x1680, 0x1680), (0x2000, 0x200A),
    (0x2028, 0x2029), (0x202F, 0x202F), (0x205F, 0x205F), (0x3000, 0x3000)]

/-- Whether a character is white space in the sense of Unicode. -/
def isSpace (c : Char) : Bool :=
  spaceRanges.any fun range ↦ range.1 ≤ c.toNat && c.toNat ≤ range.2

/-- The text without its leading white space. -/
def trimStart (cs : List Char) : List Char :=
  cs.dropWhile isSpace

/-- The text without its trailing white space. -/
def trimEnd (cs : List Char) : List Char :=
  (cs.reverse.dropWhile isSpace).reverse

/-- The text without white space on either side. -/
def trim (cs : List Char) : List Char :=
  trimEnd (trimStart cs)

@[simp] theorem trim_nil : trim [] = [] := rfl

/-- Trimming leaves nothing of white space, and something of every other text. -/
theorem trim_eq_nil_iff {cs : List Char} : trim cs = [] ↔ ∀ c ∈ cs, isSpace c = true := by
  have start {ds : List Char} : ds.dropWhile isSpace = [] ↔ ∀ c ∈ ds, isSpace c = true := by
    induction ds with
    | nil => simp
    | cons d rest ih => by_cases h : isSpace d <;> simp [h, ih]
  simp only [trim, trimEnd, trimStart, List.reverse_eq_nil_iff, start, List.mem_reverse]
  refine ⟨fun h ↦ start.1 ?_, fun h c hc ↦ h c ((List.dropWhile_suffix _).subset hc)⟩
  cases hd : cs.dropWhile isSpace with
  | nil => rfl
  | cons d rest =>
    have kept : isSpace d = false := by
      have nonempty : cs.dropWhile isSpace ≠ [] := by simp [hd]
      simpa [hd] using List.head_dropWhile_not isSpace nonempty
    have dropped : isSpace d = true := h d (by simp [hd])
    simp [kept] at dropped

theorem isSpace_of_isDigit {c : Char} (h : c.isDigit = true) : isSpace c = false := by
  obtain ⟨hlow, hhigh⟩ : 48 ≤ c.toNat ∧ c.toNat ≤ 57 := Char.isDigit_iff_toNat.1 h
  simp only [isSpace, spaceRanges, List.any_cons, List.any_nil, Bool.or_false,
    Bool.or_eq_false_iff, Bool.and_eq_false_iff, decide_eq_false_iff_not]
  omega

/-! ### What trimming leaves -/

/-- A character that is no white space keeps what follows it from the trimming of the start. -/
theorem trimStart_append_cons {c : Char} (h : isSpace c = false) (front rest : List Char) :
    trimStart (front ++ c :: rest) = trimStart front ++ c :: rest := by
  rw [trimStart, List.dropWhile_append, List.dropWhile_cons_of_neg (by simp [h])]
  split
  · next hempty => rw [trimStart, List.isEmpty_iff.1 hempty, List.nil_append]
  · rfl

/-- And it keeps what precedes it from the trimming of the end. -/
theorem trimEnd_append_cons {c : Char} (h : isSpace c = false) (front rest : List Char) :
    trimEnd (front ++ c :: rest) = front ++ c :: trimEnd rest := by
  have hstart := trimStart_append_cons h rest.reverse front.reverse
  have hreverse : (front ++ c :: rest).reverse = rest.reverse ++ c :: front.reverse := by simp
  rw [trimStart, trimStart] at hstart
  rw [trimEnd, hreverse, hstart, trimEnd]
  simp

/-- What is no white space is in what trimming leaves. -/
theorem trim_append_cons_cons {c d : Char} (hc : isSpace c = false) (hd : isSpace d = false)
    (front rest : List Char) :
    trim (front ++ c :: d :: rest) = trimStart front ++ c :: d :: trimEnd rest := by
  have hend := trimEnd_append_cons hd (trimStart front ++ [c]) rest
  rw [List.append_assoc, List.append_assoc] at hend
  rw [trim, trimStart_append_cons hc]
  exact hend

/-- White space around a text does not count. -/
theorem trim_append {before after : List Char} (hbefore : ∀ c ∈ before, isSpace c = true)
    (hafter : ∀ c ∈ after, isSpace c = true) (cs : List Char) :
    trim (before ++ cs ++ after) = trim cs := by
  rw [trim, trimStart, List.append_assoc, List.dropWhile_append_of_pos hbefore,
    List.dropWhile_append, trim, ← trimStart]
  split
  · next hempty =>
    have hdropped : after.dropWhile isSpace = [] := by
      rw [← List.append_nil after, List.dropWhile_append_of_pos hafter, List.dropWhile_nil]
    rw [hdropped, List.isEmpty_iff.1 hempty]
  · rw [trimEnd, List.reverse_append,
      List.dropWhile_append_of_pos fun c hc ↦ hafter c (List.mem_reverse.1 hc), ← trimEnd]

theorem exists_trimStart (cs : List Char) :
    ∃ before, cs = before ++ trimStart cs ∧ ∀ c ∈ before, isSpace c = true :=
  ⟨cs.takeWhile isSpace, List.takeWhile_append_dropWhile.symm,
    fun c hc ↦ List.all_eq_true.1 List.all_takeWhile c hc⟩

theorem exists_trimEnd (cs : List Char) :
    ∃ after, cs = trimEnd cs ++ after ∧ ∀ c ∈ after, isSpace c = true := by
  obtain ⟨before, hreverse, hbefore⟩ := exists_trimStart cs.reverse
  refine ⟨before.reverse, ?_, fun c hc ↦ hbefore c (List.mem_reverse.1 hc)⟩
  rw [trimEnd, ← trimStart, ← List.reverse_append, ← hreverse, List.reverse_reverse]

/-- Trimming takes white space from both ends of a text and nothing else. -/
theorem exists_trim (cs : List Char) :
    ∃ before after, cs = before ++ trim cs ++ after ∧ (∀ c ∈ before, isSpace c = true) ∧
      ∀ c ∈ after, isSpace c = true := by
  obtain ⟨before, hstart, hbefore⟩ := exists_trimStart cs
  obtain ⟨after, hend, hafter⟩ := exists_trimEnd (trimStart cs)
  refine ⟨before, after, ?_, hbefore, hafter⟩
  rw [trim, List.append_assoc, ← hend, ← hstart]

theorem trim_trim (cs : List Char) : trim (trim cs) = trim cs := by
  obtain ⟨before, after, hcs, hbefore, hafter⟩ := exists_trim cs
  rw [← trim_append hbefore hafter (trim cs), ← hcs]

/-- Trimming leaves a text without white space as it is. -/
theorem trim_eq_self {cs : List Char} (h : ∀ c ∈ cs, isSpace c = false) : trim cs = cs := by
  have kept {ds : List Char} (hds : ∀ c ∈ ds, isSpace c = false) : ds.dropWhile isSpace = ds := by
    cases ds with
    | nil => rfl
    | cons d rest => exact List.dropWhile_cons_of_neg (by simp [hds d List.mem_cons_self])
  rw [trim, trimStart, kept h, trimEnd, kept fun c hc ↦ h c (List.mem_reverse.1 hc),
    List.reverse_reverse]

/-- A text that trimming leaves as it is has no white space at its ends. -/
theorem eq_nil_of_trim_eq_self {before cs after : List Char}
    (hbefore : ∀ c ∈ before, isSpace c = true) (hafter : ∀ c ∈ after, isSpace c = true)
    (h : trim (before ++ cs ++ after) = before ++ cs ++ after) : before = [] ∧ after = [] := by
  obtain ⟨lead, tail, hcs, -, -⟩ := exists_trim cs
  have htrim := congrArg List.length h
  have hlength := congrArg List.length hcs
  rw [trim_append hbefore hafter] at htrim
  simp only [List.length_append] at htrim hlength
  exact ⟨List.eq_nil_of_length_eq_zero (by omega), List.eq_nil_of_length_eq_zero (by omega)⟩

end Qualifier.Text
