import Qualifier.Proofs.LongestMatch

/-!
# Where lexemes stand

The span of a lexeme is a slice of the source, and the slice spells the lexeme: an operator or a
parenthesis is spelled exactly, and an operand is the slice without the white space around it.
`Lexeme.StandsIn` says so of one lexeme and a text, and `Lexeme.scan_standsIn` says that every
lexeme of a source stands in it.

That rests on a fact about all lexemes at once: they lie in the source one behind the other, with
nothing but white space between them (`Lexeme.LaidOut`). The induction is on the tokens. What has
been read since the last lexeme is white space, or an operand in the making and the blanks behind
it, and all of that is still to be laid out (`Lexeme.laidOut_assemble`); an operand in the making
that comes to nothing is white space, too.
-/

namespace Qualifier.Lexeme

open Text (byteLength byteLength_append isSpace trim)

/-! ### One lexeme -/

/-- The slice of a source that a lexeme can have been read from. -/
def IsSpelled : Lexeme → List Char → Prop
  | .operand text _, slice => text.toList = trim slice ∧ text ≠ ""
  | .operator op _, slice => slice = op.symbol.toList
  | .opening _, slice => slice = ['(']
  | .closing _, slice => slice = [')']

/-- The text before a lexeme, the slice that spells it and the text behind it make up the source. -/
def StandsBetween (lexeme : Lexeme) (before slice after source : List Char) : Prop :=
  source = before ++ slice ++ after ∧ lexeme.IsSpelled slice ∧
    lexeme.span = ⟨byteLength before, byteLength before + byteLength slice⟩

/-- The lexeme stands somewhere in the source. -/
def StandsIn (lexeme : Lexeme) (source : List Char) : Prop :=
  ∃ before slice after, lexeme.StandsBetween before slice after source

/-! ### All lexemes -/

/-- From an offset on the text is made up of the slices of the lexemes and of white space. -/
inductive LaidOut : Nat → List Char → List Lexeme → Prop
  /-- Behind the last lexeme there may be white space, -/
  | nil {offset : Nat} {gap : List Char} (hgap : ∀ c ∈ gap, isSpace c = true) :
    LaidOut offset gap []
  /-- and so there may before each. -/
  | cons {offset : Nat} {gap slice rest : List Char} {lexeme : Lexeme} {lexemes : List Lexeme}
    (hgap : ∀ c ∈ gap, isSpace c = true) (hspelled : lexeme.IsSpelled slice)
    (hspan : lexeme.span = ⟨offset + byteLength gap, offset + byteLength (gap ++ slice)⟩)
    (hrest : LaidOut (offset + byteLength (gap ++ slice)) rest lexemes) :
    LaidOut offset (gap ++ slice ++ rest) (lexeme :: lexemes)

section

variable {offset : Nat} {text : List Char} {lexemes : List Lexeme}

/-- White space in front changes nothing. -/
theorem LaidOut.skip {space : List Char} (hspace : ∀ c ∈ space, isSpace c = true)
    (h : LaidOut (offset + byteLength space) text lexemes) :
    LaidOut offset (space ++ text) lexemes := by
  cases h with
  | nil hgap => exact .nil (List.forall_mem_append.2 ⟨hspace, hgap⟩)
  | cons hgap hspelled hspan hrest =>
    rw [Nat.add_assoc, Nat.add_assoc, ← byteLength_append, ← byteLength_append,
      ← List.append_assoc] at hspan
    rw [Nat.add_assoc, ← byteLength_append, ← List.append_assoc] at hrest
    rw [← List.append_assoc, ← List.append_assoc]
    exact .cons (List.forall_mem_append.2 ⟨hspace, hgap⟩) hspelled hspan hrest

/-- A lexeme may follow at once. -/
theorem LaidOut.next {slice : List Char} {lexeme : Lexeme} (hspelled : lexeme.IsSpelled slice)
    (hspan : lexeme.span = ⟨offset, offset + byteLength slice⟩)
    (h : LaidOut (offset + byteLength slice) text lexemes) :
    LaidOut offset (slice ++ text) (lexeme :: lexemes) :=
  .cons (fun _ hc ↦ absurd hc List.not_mem_nil) hspelled hspan h

end

namespace Stretch

/-- What has been read of a stretch, the blanks since included. -/
def pending : Option Stretch → List Char
  | none => []
  | some s => s.text ++ s.gap

/-- A stretch, if there is one, starts at an offset and has only white space behind it. -/
def StartsAt (stretch : Option Stretch) (offset : Nat) : Prop :=
  ∀ s ∈ stretch, s.start = offset ∧ ∀ c ∈ s.gap, isSpace c = true

variable {stretch : Option Stretch} {start : Nat}

theorem startsAt_none : StartsAt none start :=
  fun s hs ↦ absurd hs (Option.not_mem_none s)

/-- Text makes the blanks before it part of the stretch. -/
theorem pending_extend (offset : Nat) (run : List Char) :
    pending (some (extend stretch offset run)) = pending stretch ++ run := by
  cases stretch <;> simp [pending, extend, text]

theorem StartsAt.extend (h : StartsAt stretch start) (run : List Char) :
    StartsAt (some (extend stretch (start + byteLength (pending stretch)) run)) start := by
  intro t ht
  obtain rfl := Option.some.inj ht
  cases stretch with
  | none => exact ⟨rfl, fun _ hc ↦ absurd hc List.not_mem_nil⟩
  | some s => exact ⟨(h s rfl).1, fun _ hc ↦ absurd hc List.not_mem_nil⟩

theorem pending_skip (s : Stretch) (run : List Char) :
    pending (some (s.skip run)) = pending (some s) ++ run :=
  (List.append_assoc ..).symm

theorem StartsAt.skip {s : Stretch} (h : StartsAt (some s) start) {run : List Char}
    (hrun : ∀ c ∈ run, isSpace c = true) : StartsAt (some (s.skip run)) start := by
  obtain ⟨hstart, hgap⟩ := h s rfl
  intro t ht
  obtain rfl := Option.some.inj ht
  exact ⟨hstart, List.forall_mem_append.2 ⟨hgap, hrun⟩⟩

/-- A stretch that ends is laid out as an operand or as white space. -/
theorem laidOut_finish {rest : List Char} {lexemes : List Lexeme} (h : StartsAt stretch start)
    (hrest : LaidOut (start + byteLength (pending stretch)) rest lexemes) :
    LaidOut start (pending stretch ++ rest) (finish stretch ++ lexemes) := by
  cases stretch with
  | none => exact hrest
  | some s =>
    obtain ⟨rfl, hgap⟩ := h s rfl
    rw [finish]
    split
    · next htrim =>
      exact hrest.skip (List.forall_mem_append.2 ⟨Text.trim_eq_nil_iff.1 htrim, hgap⟩)
    · next htrim =>
      rw [pending, byteLength_append, ← Nat.add_assoc] at hrest
      rw [pending, List.append_assoc]
      refine .next ⟨String.toList_ofList, ?_⟩ rfl (hrest.skip hgap)
      intro hempty
      exact htrim (by rw [← String.toList_ofList (l := trim s.text), hempty]; rfl)

end Stretch

/-- Blanks are white space. -/
theorem isSpace_of_isBlank {c : Char} (h : Token.isBlank c = true) : isSpace c = true := by
  simp only [Token.isBlank, Bool.or_eq_true, decide_eq_true_eq] at h
  rcases h with (((rfl | rfl) | rfl) | rfl) | rfl <;> decide

/-- What has been read since the last lexeme and the rest of the tokens are laid out as the lexemes
that are made of them. -/
theorem laidOut_assemble {tokens : List Token} {afterBlank : Bool} {stretch : Option Stretch}
    {start : Nat} (hwords : ∀ token ∈ tokens, token.IsWord)
    (hstretch : Stretch.StartsAt stretch start) :
    LaidOut start (Stretch.pending stretch ++ tokens.flatMap Token.spelling)
      (assemble (start + byteLength (Stretch.pending stretch)) afterBlank stretch tokens) := by
  induction tokens generalizing start afterBlank stretch with
  | nil =>
    have hend : LaidOut (start + byteLength (Stretch.pending stretch)) [] [] :=
      .nil fun _ hc ↦ absurd hc List.not_mem_nil
    have hfinish := Stretch.laidOut_finish hstretch hend
    rwa [List.append_nil (Stretch.finish stretch)] at hfinish
  | cons token rest ih =>
    obtain ⟨hword, hrestwords⟩ := List.forall_mem_cons.1 hwords
    rw [List.flatMap_cons]
    have fresh (offset : Nat) (afterBlank : Bool) :
        LaidOut offset (rest.flatMap Token.spelling) (assemble offset afterBlank none rest) :=
      ih hrestwords Stretch.startsAt_none
    -- a token with a lexeme of its own ends the stretch before it and begins none
    have alone (own : Lexeme) (hspelled : own.IsSpelled token.spelling)
        (hspan : own.span = ⟨start + byteLength (Stretch.pending stretch),
          start + byteLength (Stretch.pending stretch) + byteLength token.spelling⟩) :=
      Stretch.laidOut_finish hstretch (.next hspelled hspan (fresh _ false))
    cases token with
    | operator op => exact alone (.operator op _) rfl rfl
    | opening => exact alone (.opening _) rfl rfl
    | closing => exact alone (.closing _) rfl rfl
    | blank run =>
      have hrun : ∀ c ∈ run, isSpace c = true := by
        cases hword with
        | blank _ h => exact fun c hc ↦ isSpace_of_isBlank (h c hc)
      rw [assemble]
      cases stretch with
      | none =>
        have hrest : LaidOut start (run ++ rest.flatMap Token.spelling) _ :=
          .skip hrun (fresh _ true)
        exact hrest
      | some s =>
        have hrest := @ih true _ _ hrestwords (hstretch.skip hrun)
        rwa [Stretch.pending_skip, byteLength_append, ← Nat.add_assoc, List.append_assoc] at hrest
    | text run =>
      rw [assemble]
      split
      · next h => exact alone (.operator .naming _) h.1 rfl
      · have hrest := @ih false _ _ hrestwords (hstretch.extend run)
        rwa [Stretch.pending_extend, byteLength_append, ← Nat.add_assoc, List.append_assoc] at hrest

/-- The lexemes of a source are laid out in it. -/
theorem laidOut_scan (source : String) : LaidOut 0 source.toList (scan source) := by
  have hlaid : LaidOut 0 ([] ++ (Token.scan source.toList).flatMap Token.spelling) (scan source) :=
    laidOut_assemble (fun _ h ↦ Token.isWord_of_mem_scan h) Stretch.startsAt_none
  rwa [List.nil_append, Token.scan_spelling] at hlaid

/-! ### From all lexemes to one -/

/-- Each lexeme that is laid out has its slice. -/
theorem LaidOut.exists_slice {offset : Nat} {text : List Char} {lexemes : List Lexeme}
    {lexeme : Lexeme} (h : LaidOut offset text lexemes) (hmem : lexeme ∈ lexemes) :
    ∃ before slice after, text = before ++ slice ++ after ∧ lexeme.IsSpelled slice ∧
      lexeme.span = ⟨offset + byteLength before, offset + byteLength (before ++ slice)⟩ := by
  induction h with
  | nil => cases hmem
  | @cons offset gap slice rest _ _ hgap hspelled hspan _ ih =>
    obtain rfl | hmem := List.mem_cons.1 hmem
    · exact ⟨gap, slice, rest, rfl, hspelled, hspan⟩
    · obtain ⟨before, slice', after, rfl, hspelled', hspan'⟩ := ih hmem
      refine ⟨gap ++ slice ++ before, slice', after, by simp, hspelled', ?_⟩
      rw [hspan']
      simp only [byteLength_append, Nat.add_assoc]

/-- Every lexeme of a source stands in it. -/
theorem scan_standsIn {source : String} {lexeme : Lexeme} (h : lexeme ∈ scan source) :
    lexeme.StandsIn source.toList := by
  obtain ⟨before, slice, after, hsource, hspelled, hspan⟩ := (laidOut_scan source).exists_slice h
  rw [Nat.zero_add, Nat.zero_add, byteLength_append] at hspan
  exact ⟨before, slice, after, hsource, hspelled, hspan⟩

end Qualifier.Lexeme
