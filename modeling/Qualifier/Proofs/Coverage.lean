import Mathlib
import Qualifier.Proofs.Placement

/-!
# Nothing of a source is lost

Whatever the source, the rule of the longest match cuts all of it into tokens, which lie one behind
the other without a gap, and the lexemes that are made of them leave out nothing but white space.

For the tokens this rests on `Token.lexes_iff`: the rule comes to the tokens of `Token.scan`, and
those spell the source. The lexemes are laid out in the source (`Lexeme.LaidOut`), from which follow
the order of their spans and what lies outside all of them. That no operand stands next to another
is a fact about what ends a stretch of text: a lexeme of another kind, or the end of the source.

The main statement is `Lexeme.scan_covers`.
-/

namespace Qualifier

open Text (byteLength byteLength_append isSpace)

/-! ### Tokens -/

/-- Spans that lie one behind the other without a gap from an offset to another, none of them
empty. -/
def Span.Tile (start : Nat) : List Span → Nat → Prop
  | [], stop => start = stop
  | span :: rest, stop => span.start = start ∧ span.start < span.stop ∧ Tile span.stop rest stop

theorem Text.byteLength_pos {cs : List Char} (h : cs ≠ []) : 0 < byteLength cs := by
  cases cs with
  | nil => exact absurd rfl h
  | cons c rest =>
    rw [byteLength_cons]
    exact Nat.add_pos_left c.utf8Size_pos _

namespace Token

variable {offset : Nat} {tokens : List Token}

/-- The places of words lie one behind the other, as far as their spellings reach. -/
theorem tile_place (hwords : ∀ token ∈ tokens, token.IsWord) :
    Span.Tile offset ((place offset tokens).map Prod.snd)
      (offset + byteLength (tokens.flatMap spelling)) := by
  induction tokens generalizing offset with
  | nil => rfl
  | cons token rest ih =>
    obtain ⟨hword, hrest⟩ := List.forall_mem_cons.1 hwords
    refine ⟨rfl, Nat.lt_add_of_pos_right (Text.byteLength_pos hword.ne_nil), ?_⟩
    rw [List.flatMap_cons, byteLength_append, ← Nat.add_assoc]
    exact ih hrest

/-- The tokens that have been placed. -/
theorem filterMap_place :
    (place offset tokens).filterMap (Prod.fst ∘ fun placed ↦ (some placed.1, placed.2)) =
      tokens := by
  induction tokens generalizing offset with
  | nil => rfl
  | cons token rest ih => exact congrArg (token :: ·) ih

/-- A placed token has its spelling at its place. -/
theorem exists_of_mem_place {token : Token} {span : Span}
    (h : (token, span) ∈ place offset tokens) :
    ∃ before after, tokens.flatMap spelling = before ++ token.spelling ++ after ∧
      span = ⟨offset + byteLength before, offset + byteLength (before ++ token.spelling)⟩ := by
  induction tokens generalizing offset with
  | nil => cases h
  | cons first rest ih =>
    obtain heq | h := List.mem_cons.1 h
    · cases heq
      exact ⟨[], rest.flatMap spelling, rfl, rfl⟩
    · obtain ⟨before, after, hrest, rfl⟩ := ih h
      refine ⟨first.spelling ++ before, after, by simp [hrest], ?_⟩
      simp only [byteLength_append, Nat.add_assoc]

end Token

/-! ### Lexemes -/

namespace Lexeme

/-- Whether a lexeme is an operand. -/
def isOperand : Lexeme → Bool
  | .operand .. => true
  | .operator .. | .opening _ | .closing _ => false

/-- At most one of two lexemes is an operand. -/
def AreParted (a b : Lexeme) : Prop :=
  a.isOperand = false ∨ b.isOperand = false

/-- A lexeme is spelled with something. -/
theorem IsSpelled.ne_nil {lexeme : Lexeme} {slice : List Char} (h : lexeme.IsSpelled slice) :
    slice ≠ [] := by
  rintro rfl
  cases lexeme with
  | operand text =>
    obtain ⟨htext, hne⟩ := h
    exact hne (String.toList_eq_nil_iff.1 htext)
  | operator op =>
    rcases op with op | op | op | _ <;> (try cases op) <;> cases h
  | opening => cases h
  | closing => cases h

/-- An item of a sequence of two parts stands in the first or in the second. -/
theorem cases_of_append_eq {α : Type} {first second before after : List α} {a : α}
    (h : first ++ second = before ++ a :: after) :
    (∃ more, first = before ++ a :: more) ∨
      ∃ more, before = first ++ more ∧ second = more ++ a :: after := by
  obtain ⟨more, hbefore, hsecond⟩ | ⟨more, hfirst, hafter⟩ := List.append_eq_append_iff.1 h
  · exact .inr ⟨more, hbefore, hsecond⟩
  · cases more with
    | nil =>
      rw [List.append_nil] at hfirst
      exact .inr ⟨[], by rw [hfirst, List.append_nil], hafter.symm⟩
    | cons =>
      cases hafter
      exact .inl ⟨_, hfirst⟩

section

variable {offset : Nat} {text : List Char} {lexemes : List Lexeme} (h : LaidOut offset text lexemes)

include h

theorem LaidOut.start_lt_stop {lexeme : Lexeme} (hmem : lexeme ∈ lexemes) :
    lexeme.span.start < lexeme.span.stop := by
  obtain ⟨before, slice, after, -, hspelled, hspan⟩ := h.exists_slice hmem
  rw [hspan, byteLength_append, ← Nat.add_assoc]
  exact Nat.lt_add_of_pos_right (Text.byteLength_pos hspelled.ne_nil)

/-- Lexemes that are laid out follow each other in the text. -/
theorem LaidOut.pairwise : lexemes.Pairwise fun a b ↦ a.span.stop ≤ b.span.start := by
  induction h with
  | nil => exact .nil
  | cons _ _ hspan hrest ih =>
    refine .cons (fun lexeme hmem ↦ ?_) ih
    obtain ⟨before, slice, after, -, -, hspan'⟩ := hrest.exists_slice hmem
    rw [hspan, hspan']
    exact Nat.le_add_right _ _

/-- A character that lies in no lexeme is white space. -/
theorem LaidOut.isSpace_of_outside {before after : List Char} {c : Char}
    (htext : text = before ++ c :: after)
    (houtside : ∀ lexeme ∈ lexemes, ¬(lexeme.span.start ≤ offset + byteLength before ∧
      offset + byteLength before < lexeme.span.stop)) : isSpace c = true := by
  induction h generalizing before with
  | nil hgap => exact hgap c (htext ▸ List.mem_append_right _ List.mem_cons_self)
  | @cons offset gap slice rest lexeme _ hgap _ hspan _ ih =>
    obtain ⟨more, hread⟩ | ⟨more, rfl, hrest⟩ := cases_of_append_eq htext
    · obtain ⟨more', hskipped⟩ | ⟨more', rfl, hslice⟩ := cases_of_append_eq hread
      · exact hgap c (hskipped ▸ List.mem_append_right _ List.mem_cons_self)
      · -- a character of the slice lies in the span
        refine absurd ?_ (houtside lexeme List.mem_cons_self)
        have hpos := c.utf8Size_pos
        simp only [hspan, hslice, byteLength_append, Text.byteLength_cons]
        omega
    · refine ih hrest fun other hmem ↦ ?_
      have hother := houtside other (List.mem_cons_of_mem _ hmem)
      rwa [byteLength_append (gap ++ slice), ← Nat.add_assoc] at hother

end

/-- A stretch that ends makes one operand or none. -/
theorem Stretch.finish_eq (stretch : Option Stretch) :
    finish stretch = [] ∨ ∃ text span, finish stretch = [.operand text span] := by
  cases stretch with
  | none => exact .inl rfl
  | some s =>
    rw [finish]
    split
    · exact .inl rfl
    · exact .inr ⟨_, _, rfl⟩

/-- Operands do not stand next to each other. -/
theorem isChain_assemble (offset : Nat) (afterBlank : Bool) (stretch : Option Stretch)
    (tokens : List Token) :
    (assemble offset afterBlank stretch tokens).IsChain AreParted := by
  -- what ends a stretch is no operand
  have alone (own : Lexeme) (rest : List Lexeme) (stretch : Option Stretch)
      (hown : own.isOperand = false) (hrest : rest.IsChain AreParted) :
      (Stretch.finish stretch ++ own :: rest).IsChain AreParted := by
    have hfrom : (own :: rest).IsChain AreParted :=
      List.isChain_cons.2 ⟨fun _ _ ↦ .inl hown, hrest⟩
    obtain hfinish | ⟨text, span, hfinish⟩ := Stretch.finish_eq stretch
    · rwa [hfinish]
    · rw [hfinish]
      exact List.isChain_cons_cons.2 ⟨.inr hown, hfrom⟩
  induction tokens generalizing offset afterBlank stretch with
  | nil =>
    obtain hfinish | ⟨text, span, hfinish⟩ := Stretch.finish_eq stretch
    · rw [assemble, hfinish]
      exact .nil
    · rw [assemble, hfinish]
      exact .singleton _
  | cons token rest ih =>
    cases token with
    | operator op => exact alone (.operator op _) _ _ rfl (ih _ _ _)
    | opening => exact alone (.opening _) _ _ rfl (ih _ _ _)
    | closing => exact alone (.closing _) _ _ rfl (ih _ _ _)
    | blank run => exact ih _ _ _
    | text run =>
      rw [assemble]
      split
      · exact alone (.operator .naming _) _ _ rfl (ih _ _ _)
      · exact ih _ _ _

end Lexeme

/-! ### Sources -/

/-- The pieces of a source are tokens and make up all of it. -/
structure Token.Cover (source : String) (raw : List (Option Token × Span)) : Prop where
  /-- No piece is an error. -/
  isSome : ∀ piece ∈ raw, piece.1.isSome = true
  /-- The pieces lie one behind the other, from the start of the source to its end. -/
  tile : Span.Tile 0 (raw.map Prod.snd) source.utf8ByteSize
  /-- Each takes whole characters, and those are the ones that it stands for. -/
  slice : ∀ {token span}, (some token, span) ∈ raw →
    ∃ before after, source.toList = before ++ token.spelling ++ after ∧
      span = ⟨byteLength before, byteLength (before ++ token.spelling)⟩

/-- The lexemes of a source leave out only white space. -/
structure Lexeme.Cover (source : String) (lexemes : List Lexeme) : Prop where
  /-- No span is empty. -/
  nonempty : ∀ lexeme ∈ lexemes, lexeme.span.start < lexeme.span.stop
  /-- The spans follow each other and do not overlap. -/
  ordered : lexemes.Pairwise fun a b ↦
    a.span.start < b.span.start ∧ a.span.stop ≤ b.span.start
  /-- Each spells its lexeme: a symbol or parenthesis exactly, and an operand, which is not empty,
  up to the white space around it. -/
  spelled : ∀ lexeme ∈ lexemes, lexeme.StandsIn source.toList
  /-- No operand stands next to another. -/
  parted : lexemes.IsChain Lexeme.AreParted
  /-- A character that lies in no span is white space. -/
  isSpace : ∀ {before c after}, source.toList = before ++ c :: after →
    (∀ lexeme ∈ lexemes, ¬(lexeme.span.start ≤ byteLength before ∧
      byteLength before < lexeme.span.stop)) → isSpace c = true

theorem Token.cover_place (source : String) :
    Cover source ((place 0 (scan source.toList)).map fun placed ↦ (some placed.1, placed.2)) where
  isSome := by
    rintro piece hmem
    obtain ⟨placed, -, rfl⟩ := List.mem_map.1 hmem
    rfl
  tile := by
    have htile := @tile_place 0 (scan source.toList) fun _ h ↦ isWord_of_mem_scan h
    rw [scan_spelling, Nat.zero_add, Text.byteLength_toList] at htile
    rwa [List.map_map]
  slice hmem := by
    obtain ⟨⟨token, span⟩, hplaced, heq⟩ := List.mem_map.1 hmem
    cases heq
    obtain ⟨before, after, hsource, hspan⟩ := exists_of_mem_place hplaced
    rw [scan_spelling] at hsource
    rw [Nat.zero_add, Nat.zero_add] at hspan
    exact ⟨before, after, hsource, hspan⟩

theorem Lexeme.cover_scan (source : String) : Cover source (scan source) where
  nonempty _ hmem := (laidOut_scan source).start_lt_stop hmem
  ordered := by
    refine (laidOut_scan source).pairwise.imp_of_mem fun {a b} ha _ hstop ↦ ?_
    exact ⟨Nat.lt_of_lt_of_le ((laidOut_scan source).start_lt_stop ha) hstop, hstop⟩
  spelled _ hmem := scan_standsIn hmem
  parted := isChain_assemble ..
  isSpace hsource houtside := by
    refine (laidOut_scan source).isSpace_of_outside hsource fun lexeme hmem ↦ ?_
    rw [Nat.zero_add]
    exact houtside lexeme hmem

/-- The rule of the longest match cuts a source in one way, into tokens that cover it, and the
lexemes that are made of these tokens leave out only white space. -/
theorem Lexeme.scan_covers (source : String) :
    ∃ raw, (∀ raw', Token.Lexes 0 source.toList raw' ↔ raw' = raw) ∧ Token.Cover source raw ∧
      scan source = assemble 0 false none (raw.filterMap Prod.fst) ∧
      Cover source (scan source) := by
  refine ⟨_, fun raw' ↦ Token.lexes_iff, Token.cover_place source, ?_, cover_scan source⟩
  rw [List.filterMap_map, Token.filterMap_place, scan]

/-- In this source an operand begins with a vertical tab, which is white space but no blank, and so
belongs to the span and not to the text. -/
theorem Lexeme.scan_covers_vertical_tab :
    let source := "x &&\x0by as z"
    scan source = [.operand "x" ⟨0, 1⟩, .operator (.logic .and) ⟨2, 4⟩, .operand "y" ⟨4, 6⟩,
        .operator .naming ⟨7, 9⟩, .operand "z" ⟨10, 11⟩] ∧
      Cover source (scan source) ∧
      ∃ raw, Token.Lexes 0 source.toList raw ∧ Token.Cover source raw := by
  intro source
  have hscan : scan "x &&\x0by as z" = [.operand "x" ⟨0, 1⟩, .operator (.logic .and) ⟨2, 4⟩,
      .operand "y" ⟨4, 6⟩, .operator .naming ⟨7, 9⟩, .operand "z" ⟨10, 11⟩] := by cbv
  obtain ⟨raw, hlexes, hraw, -, hcover⟩ := scan_covers "x &&\x0by as z"
  exact ⟨hscan, hcover, raw, (hlexes raw).2 rfl, hraw⟩

end Qualifier
