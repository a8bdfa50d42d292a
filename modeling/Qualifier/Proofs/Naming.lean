import Qualifier.Proofs.Coverage

/-!
# Where `as` is an operator

Text needs no quotes, and so the word `as` is an operator in some places and text in all others. It
is an operator exactly where a blank stands directly on both sides of it.

What is decided is decided about tokens: which of them make a lexeme by themselves
(`Token.own?`, `Lexeme.mem_assemble_iff`). What is said is said about characters. In between stands
a fact about words: one with a blank has nothing but blanks (`Token.IsWord.startsBlank_eq`). So a
blank next to a letter is in another token, and blanks on both sides of `as` leave it a token of its
own (`Token.scan_eq_of_isApart`).

Elsewhere the letters are text. They are no white space and no part of a symbol, so both lie in one
operand, as two operands never touch (`Lexeme.LaidOut.exists_of_pair`), and they survive its
trimming. The main statement is `Lexeme.scan_naming`.
-/

namespace Qualifier

open Text (byteLength byteLength_append isSpace trim)

namespace Token

/-! ### A character and its token -/

/-- The tokens behind others are those of the text behind them. -/
theorem eq_scan_of_scan_eq_append {text : List Char} {xs ys : List Token}
    (h : scan text = xs ++ ys) : ys = scan (ys.flatMap spelling) := by
  induction xs generalizing text with
  | nil =>
    rw [List.nil_append] at h
    rw [← h, scan_spelling]
  | cons token xs ih =>
    cases text with
    | nil =>
      rw [scan_nil] at h
      cases h
    | cons c rest =>
      rw [scan] at h
      exact ih (List.cons.inj h).2

/-- A token of a text, those before it and those behind it are words. -/
theorem isWord_of_scan_eq_append {text : List Char} {xs ys : List Token} {token : Token}
    (h : scan text = xs ++ token :: ys) :
    (∀ token ∈ xs, token.IsWord) ∧ token.IsWord ∧ ∀ token ∈ ys, token.IsWord := by
  have hwords (token' : Token) (hmem : token' ∈ xs ++ token :: ys) : token'.IsWord :=
    isWord_of_mem_scan (h ▸ hmem)
  obtain ⟨hxs, hrest⟩ := (List.forall_mem_append (p := IsWord)).1 hwords
  exact ⟨hxs, List.forall_mem_cons.1 hrest⟩

/-- Wherever a token stands, it is the longest word that begins there. -/
theorem isLongest_of_scan_eq_append {text : List Char} {xs ys : List Token} {token : Token}
    (h : scan text = xs ++ token :: ys) :
    token.IsLongest (token.spelling ++ ys.flatMap spelling) := by
  obtain ⟨-, hword, -⟩ := isWord_of_scan_eq_append h
  have hscan := eq_scan_of_scan_eq_append h
  rw [List.flatMap_cons] at hscan
  cases hspelling : token.spelling ++ ys.flatMap spelling with
  | nil => exact absurd (List.append_eq_nil_iff.1 hspelling).1 hword.ne_nil
  | cons c rest =>
    rw [hspelling, scan] at hscan
    rw [(List.cons.inj hscan).1]
    exact isLongest_first c rest

/-- A character of a text lies in one of the tokens that make up the text. -/
theorem exists_of_flatMap_eq {tokens : List Token} {before after : List Char} {c : Char}
    (h : tokens.flatMap spelling = before ++ c :: after) :
    ∃ xs token ys front back, tokens = xs ++ token :: ys ∧
      before = xs.flatMap spelling ++ front ∧ token.spelling = front ++ c :: back ∧
      after = back ++ ys.flatMap spelling := by
  induction tokens generalizing before with
  | nil => exact absurd h.symm (by simp)
  | cons token rest ih =>
    rw [List.flatMap_cons] at h
    obtain ⟨back, hspelling⟩ | ⟨more, rfl, hrest⟩ := Lexeme.cases_of_append_eq h
    · rw [hspelling, List.append_assoc] at h
      have hafter := (List.cons.inj (List.append_cancel_left h)).2
      exact ⟨[], token, rest, before, back, rfl, rfl, hspelling, hafter.symm⟩
    · obtain ⟨xs, token', ys, front, back, rfl, rfl, hspelling, hafter⟩ := ih hrest
      refine ⟨token :: xs, token', ys, front, back, rfl, ?_, hspelling, hafter⟩
      rw [List.flatMap_cons, List.append_assoc]

theorem isReserved_of_isLone {c : Char} (h : isLone c = true) : isReserved c = true := by
  have hall : "=!&|".toList.all isReserved = true := by decide
  rw [isLone, List.contains_iff_mem] at h
  exact List.all_eq_true.1 hall c h

/-- A word is a run of blanks as soon as it has one. -/
theorem IsWord.startsBlank_eq {token : Token} (h : token.IsWord) {c : Char}
    (hc : c ∈ token.spelling) (rest : List Token) :
    Lexeme.startsBlank (token :: rest) = isBlank c := by
  have not_blank {d : Char} (hd : isReserved d = true) : false = isBlank d := by
    cases hblank : isBlank d with
    | false => rfl
    | true => exact absurd hd (by simp [isReserved_of_isBlank hblank])
  cases h with
  | operator hop => exact not_blank (Operator.isReserved_of_mem_symbol hop hc)
  | opening => exact not_blank (List.mem_singleton.1 hc ▸ rfl)
  | closing => exact not_blank (List.mem_singleton.1 hc ▸ rfl)
  | run _ hall =>
    have hplain := hall c hc
    simp only [isPlain, Bool.and_eq_true, Bool.not_eq_true'] at hplain
    exact hplain.1.symm
  | lone hlone => exact not_blank (List.mem_singleton.1 hc ▸ isReserved_of_isLone hlone)
  | blank _ hall => exact (hall c hc).symm

/-! ### What a token makes by itself -/

/-- The lexeme that a token makes by itself; `afterBlank` tells whether the token before it was a
run of blanks, and `rest` are the tokens behind it. -/
def own? (place : Span) (afterBlank : Bool) (rest : List Token) : Token → Option Lexeme
  | .operator op => some (.operator op place)
  | .opening => some (.opening place)
  | .closing => some (.closing place)
  | .text run =>
    if run = Operator.naming.symbol.toList ∧ afterBlank ∧ Lexeme.startsBlank rest then
      some (.operator .naming place)
    else none
  | .blank _ => none

/-- Whether the last of some tokens is a run of blanks; `afterBlank` tells so of the token before
them. -/
def endsBlank (afterBlank : Bool) : List Token → Bool
  | [] => afterBlank
  | token :: rest => endsBlank (Lexeme.startsBlank [token]) rest

end Token

namespace Lexeme

theorem Stretch.isOperand_of_mem_finish {stretch : Option Stretch} {lexeme : Lexeme}
    (h : lexeme ∈ finish stretch) : lexeme.isOperand = true := by
  obtain hfinish | ⟨text, span, hfinish⟩ := finish_eq stretch
  · rw [hfinish] at h
    cases h
  · rw [hfinish, List.mem_singleton] at h
    rw [h]
    rfl

/-- The first of some tokens ends an operand or none, makes a lexeme by itself or none, and leaves
the rest to be read with some stretch or other in the making. -/
theorem assemble_cons (offset : Nat) (afterBlank : Bool) (stretch : Option Stretch) (token : Token)
    (rest : List Token) :
    ∃ ended stretch', (∀ lexeme ∈ ended, lexeme.isOperand = true) ∧
      assemble offset afterBlank stretch (token :: rest) =
        ended ++
          ((token.own? ⟨offset, offset + byteLength token.spelling⟩ afterBlank rest).toList ++
          assemble (offset + byteLength token.spelling) (startsBlank [token]) stretch' rest) := by
  have hfinish (lexeme : Lexeme) := @Stretch.isOperand_of_mem_finish stretch lexeme
  have hnil (lexeme : Lexeme) (h : lexeme ∈ []) : lexeme.isOperand = true :=
    absurd h List.not_mem_nil
  cases token with
  | operator | opening | closing => exact ⟨_, none, hfinish, rfl⟩
  | blank run => exact ⟨[], _, hnil, rfl⟩
  | text run =>
    rw [assemble, Token.own?]
    split
    · exact ⟨_, none, hfinish, rfl⟩
    · exact ⟨[], _, hnil, rfl⟩

/-- The lexemes other than operands are those that tokens make by themselves. -/
theorem mem_assemble_iff {lexeme : Lexeme} (h : lexeme.isOperand = false) {offset : Nat}
    {afterBlank : Bool} {stretch : Option Stretch} {tokens : List Token} :
    lexeme ∈ assemble offset afterBlank stretch tokens ↔
      ∃ xs token ys, tokens = xs ++ token :: ys ∧
        token.own? ⟨offset + byteLength (xs.flatMap Token.spelling),
          offset + byteLength (xs.flatMap Token.spelling) + byteLength token.spelling⟩
          (Token.endsBlank afterBlank xs) ys = some lexeme := by
  induction tokens generalizing offset afterBlank stretch with
  | nil =>
    refine ⟨fun hmem ↦ ?_, by simp⟩
    rw [Stretch.isOperand_of_mem_finish hmem] at h
    cases h
  | cons token rest ih =>
    obtain ⟨ended, stretch', hended, hcons⟩ := assemble_cons offset afterBlank stretch token rest
    have hnot : lexeme ∉ ended := fun hmem ↦ by simp [hended lexeme hmem] at h
    rw [hcons, List.mem_append, or_iff_right hnot, List.mem_append, Option.mem_toList, ih]
    constructor
    · rintro (hown | ⟨xs, token', ys, rfl, hown⟩)
      · exact ⟨[], token, rest, rfl, hown⟩
      · refine ⟨token :: xs, token', ys, rfl, ?_⟩
        rwa [List.flatMap_cons, byteLength_append, ← Nat.add_assoc]
    · rintro ⟨xs, token', ys, htokens, hown⟩
      cases xs with
      | nil =>
        cases htokens
        exact .inl hown
      | cons =>
        cases htokens
        rw [List.flatMap_cons, byteLength_append, ← Nat.add_assoc] at hown
        exact .inr ⟨_, _, _, rfl, hown⟩

end Lexeme

namespace Token

/-- The characters that set words apart: space, tab, carriage return, line feed and form feed. -/
def blanks : List Char :=
  [' ', '\t', '\r', '\n', '\x0c']

/-- One of these characters stands directly before what comes between two texts, and one directly
behind it. -/
def IsApart (before after : List Char) : Prop :=
  before.getLast?.any (· ∈ blanks) = true ∧ after.head?.any (· ∈ blanks) = true

instance (before after : List Char) : Decidable (IsApart before after) :=
  inferInstanceAs (Decidable (_ ∧ _))

theorem isBlank_eq : isBlank = fun c ↦ decide (c ∈ blanks) := by
  funext c
  simp [isBlank, blanks, Bool.or_assoc]

theorem isApart_iff_any {before after : List Char} :
    IsApart before after ↔
      before.getLast?.any isBlank = true ∧ after.head?.any isBlank = true := by
  rw [isBlank_eq]
  exact Iff.rfl

/-- What lies further off does not matter. -/
theorem IsApart.append {before after : List Char} (h : IsApart before after)
    (front back : List Char) : IsApart (front ++ before) (after ++ back) := by
  obtain ⟨hbefore, hafter⟩ := h
  constructor
  · rw [List.getLast?_append]
    cases hlast : before.getLast? with
    | none => simp [hlast] at hbefore
    | some b => rwa [hlast] at hbefore
  · cases after with
    | nil => cases hafter
    | cons a more => exact hafter

section

variable {tokens : List Token} (hwords : ∀ token ∈ tokens, token.IsWord)

include hwords

/-- Tokens start with a run of blanks exactly if their text starts with a blank, -/
theorem startsBlank_eq_any :
    Lexeme.startsBlank tokens = (tokens.flatMap spelling).head?.any isBlank := by
  cases tokens with
  | nil => rfl
  | cons token rest =>
    have hword := hwords token List.mem_cons_self
    cases hspelling : token.spelling with
    | nil => exact absurd hspelling hword.ne_nil
    | cons c more =>
      rw [hword.startsBlank_eq (hspelling ▸ List.mem_cons_self), List.flatMap_cons, hspelling]
      rfl

/-- and end with one exactly if it ends with a blank. -/
theorem endsBlank_eq_elim (afterBlank : Bool) :
    endsBlank afterBlank tokens = (tokens.flatMap spelling).getLast?.elim afterBlank isBlank := by
  induction tokens generalizing afterBlank with
  | nil => rfl
  | cons token rest ih =>
    obtain ⟨hword, hrest⟩ := List.forall_mem_cons.1 hwords
    rw [endsBlank, ih hrest, List.flatMap_cons, List.getLast?_append]
    cases (rest.flatMap spelling).getLast? with
    | some c => rfl
    | none =>
      cases hlast : token.spelling.getLast? with
      | none => exact absurd (List.getLast?_eq_none_iff.1 hlast) hword.ne_nil
      | some c => exact hword.startsBlank_eq (List.mem_of_getLast? hlast) []

end

theorem isApart_iff {xs ys : List Token} (hxs : ∀ token ∈ xs, token.IsWord)
    (hys : ∀ token ∈ ys, token.IsWord) :
    IsApart (xs.flatMap spelling) (ys.flatMap spelling) ↔
      endsBlank false xs = true ∧ Lexeme.startsBlank ys = true := by
  rw [isApart_iff_any, endsBlank_eq_elim hxs, startsBlank_eq_any hys]
  cases (xs.flatMap spelling).getLast? <;> rfl

/-- Of the words, `as` alone can be the operator `as`. -/
theorem IsWord.own?_eq_naming_iff {token : Token} (h : token.IsWord) {place span : Span}
    {afterBlank : Bool} {rest : List Token} :
    token.own? place afterBlank rest = some (.operator .naming span) ↔
      token = .text ['a', 's'] ∧ (afterBlank = true ∧ Lexeme.startsBlank rest = true) ∧
        span = place := by
  cases token with
  | operator op =>
    have hop : op ≠ .naming := by
      cases h
      assumption
    simp [own?, hop]
  | opening => simp [own?]
  | closing => simp [own?]
  | blank run => simp [own?]
  | text run =>
    rw [own?, Option.ite_none_right_eq_some, Token.text.injEq, Option.some_inj,
      Lexeme.operator.injEq, eq_comm (a := place)]
    simp only [true_and, and_assoc]
    rfl

/-- Between blanks the word `as` is a token. -/
theorem scan_eq_of_isApart {before after : List Char} (h : IsApart before after) :
    ∃ xs ys, scan (before ++ 'a' :: 's' :: after) = xs ++ .text ['a', 's'] :: ys ∧
      xs.flatMap spelling = before ∧ ys.flatMap spelling = after := by
  obtain ⟨hbefore, hafter⟩ := isApart_iff_any.1 h
  obtain ⟨xs, token, ys, front, back, hscan, rfl, hspelling, hrest⟩ :=
    exists_of_flatMap_eq (scan_spelling (before ++ 'a' :: 's' :: after))
  have hlongest := isLongest_of_scan_eq_append hscan
  obtain rfl | ⟨init, b, rfl⟩ := front.eq_nil_or_concat
  · have htoken : token = .text ['a', 's'] := by
      rw [hspelling, List.nil_append, List.cons_append, ← hrest] at hlongest
      rw [hlongest.eq_first, first_of_isPlain (by decide)]
      cases after with
      | nil => cases hafter
      | cons a more =>
        have hnot : isPlain a = false := by simp [isPlain, show isBlank a = true from hafter]
        rw [List.takeWhile_cons_of_pos (by decide), List.takeWhile_cons_of_neg (by simp [hnot])]
    subst htoken
    cases hspelling
    exact ⟨xs, ys, hscan, (List.append_nil _).symm, (List.cons.inj hrest).2.symm⟩
  · -- a blank is in no word with a letter
    have hword := hlongest.word
    rw [List.concat_eq_append] at hbefore hspelling
    have hletter := hword.startsBlank_eq (c := 'a') (by simp [hspelling]) []
    have hblank := hword.startsBlank_eq (c := b) (by simp [hspelling]) []
    have hend : isBlank b = true := by simpa using hbefore
    rw [← hblank, hletter] at hend
    cases hend

end Token

namespace Lexeme

/-- The word `as` is an operator exactly between blanks. -/
theorem operator_naming_mem_scan_iff {source : String} {span : Span} :
    .operator .naming span ∈ scan source ↔
      ∃ before after, source.toList = before ++ 'a' :: 's' :: after ∧
        Token.IsApart before after ∧ span = ⟨byteLength before, byteLength before + 2⟩ := by
  have hsource := Token.scan_spelling source.toList
  rw [scan, mem_assemble_iff rfl]
  simp only [Nat.zero_add]
  constructor
  · rintro ⟨xs, token, ys, hscan, hown⟩
    obtain ⟨hxs, htoken, hys⟩ := Token.isWord_of_scan_eq_append hscan
    obtain ⟨rfl, hapart, rfl⟩ := htoken.own?_eq_naming_iff.1 hown
    rw [hscan, List.flatMap_append, List.flatMap_cons] at hsource
    exact ⟨_, _, hsource.symm, (Token.isApart_iff hxs hys).2 hapart, rfl⟩
  · rintro ⟨before, after, hsplit, hapart, rfl⟩
    obtain ⟨xs, ys, hscan, rfl, rfl⟩ := Token.scan_eq_of_isApart hapart
    rw [← hsplit] at hscan
    obtain ⟨hxs, htoken, hys⟩ := Token.isWord_of_scan_eq_append hscan
    have happart := (Token.isApart_iff hxs hys).1 hapart
    exact ⟨xs, _, ys, hscan, htoken.own?_eq_naming_iff.2 ⟨rfl, happart, rfl⟩⟩

/-! ### The word elsewhere -/

theorem not_mem_of_isSpace {gap : List Char} (hgap : ∀ c ∈ gap, isSpace c = true) {c : Char}
    (hc : isSpace c = false) : c ∉ gap := fun hmem ↦ by
  rw [hgap c hmem] at hc
  cases hc

/-- A text that starts with a character that is no white space starts with a lexeme. -/
theorem LaidOut.exists_of_cons {offset : Nat} {text rest : List Char} {lexemes : List Lexeme}
    {c : Char} (h : LaidOut offset text lexemes) (hc : isSpace c = false)
    (htext : text = c :: rest) :
    ∃ lexeme others more, lexemes = lexeme :: others ∧ lexeme.IsSpelled (c :: more) := by
  cases h with
  | nil hgap => exact absurd (by simp [htext]) (not_mem_of_isSpace hgap hc)
  | @cons _ gap slice rest' lexeme others hgap hspelled _ _ =>
    rw [List.append_assoc] at htext
    cases gap with
    | cons d _ =>
      rw [(List.cons.inj htext).1] at hgap
      exact absurd List.mem_cons_self (not_mem_of_isSpace hgap hc)
    | nil =>
      cases slice with
      | nil => exact absurd rfl hspelled.ne_nil
      | cons d more =>
        obtain ⟨rfl, -⟩ := List.cons.inj htext
        exact ⟨lexeme, others, more, rfl, hspelled⟩

/-- Two characters that are no white space and stand next to each other lie in one lexeme, or one of
them is at the border of a lexeme that is no operand. -/
theorem LaidOut.exists_of_pair {offset : Nat} {text before after : List Char}
    {lexemes : List Lexeme} {c d : Char} (h : LaidOut offset text lexemes)
    (hparted : lexemes.IsChain AreParted) (hc : isSpace c = false) (hd : isSpace d = false)
    (htext : text = before ++ c :: d :: after) :
    ∃ lexeme ∈ lexemes,
      (∃ left front back right, before = left ++ front ∧ after = back ++ right ∧
        lexeme.IsSpelled (front ++ c :: d :: back) ∧
        lexeme.span = ⟨offset + byteLength left,
          offset + byteLength (left ++ (front ++ c :: d :: back))⟩) ∨
      lexeme.isOperand = false ∧
        ∃ more, lexeme.IsSpelled (more ++ [c]) ∨ lexeme.IsSpelled (d :: more) := by
  induction h generalizing before with
  | nil hgap => exact absurd (by simp [htext]) (not_mem_of_isSpace hgap hc)
  | @cons offset gap slice rest lexeme lexemes hgap hspelled hspan hrest ih =>
    obtain ⟨more, hread⟩ | ⟨more, rfl, hafter⟩ := cases_of_append_eq htext
    · obtain ⟨more', hskipped⟩ | ⟨front, rfl, rfl⟩ := cases_of_append_eq hread
      · exact absurd (by simp [hskipped]) (not_mem_of_isSpace hgap hc)
      have hbehind : more ++ rest = d :: after := by simpa using htext
      cases more with
      | cons e back =>
        obtain ⟨rfl, rfl⟩ := List.cons.inj hbehind
        exact ⟨lexeme, List.mem_cons_self, .inl ⟨gap, front, back, rest, rfl, rfl, hspelled, hspan⟩⟩
      | nil =>
        -- the first character ends its lexeme, so the second begins the next
        obtain ⟨other, others, more, rfl, hspelled'⟩ := hrest.exists_of_cons hd hbehind
        have hother : other ∈ lexeme :: other :: others := by simp
        obtain hparted | hparted := (List.isChain_cons_cons.1 hparted).1
        · exact ⟨lexeme, List.mem_cons_self, .inr ⟨hparted, front, .inl hspelled⟩⟩
        · exact ⟨other, hother, .inr ⟨hparted, more, .inr hspelled'⟩⟩
    · obtain ⟨other, hmem, hother⟩ := ih hparted.tail hafter
      refine ⟨other, List.mem_cons_of_mem _ hmem, hother.imp_left ?_⟩
      rintro ⟨left, front, back, right, rfl, hback, hspelled', hspan'⟩
      refine ⟨gap ++ slice ++ left, front, back, right, by simp, hback, hspelled', ?_⟩
      rw [hspan']
      simp only [byteLength_append, Nat.add_assoc]

/-- Of the lexemes that are no operands, `as` alone is spelled with a character that takes part in
no symbol. -/
theorem IsSpelled.eq_naming {lexeme : Lexeme} {slice : List Char} {c : Char}
    (h : lexeme.IsSpelled slice) (hoperand : lexeme.isOperand = false) (hc : c ∈ slice)
    (hreserved : Token.isReserved c = false) :
    lexeme = .operator .naming lexeme.span ∧ slice = ['a', 's'] := by
  cases lexeme with
  | operand => cases hoperand
  | opening | closing =>
    rw [show slice = _ from h, List.mem_singleton] at hc
    rw [hc] at hreserved
    cases hreserved
  | operator op span =>
    have hsymbol : slice = op.symbol.toList := h
    by_cases hop : op = .naming
    · subst hop
      exact ⟨rfl, hsymbol⟩
    · rw [Operator.isReserved_of_mem_symbol hop (hsymbol ▸ hc)] at hreserved
      cases hreserved

/-- A word of the source, between the text before it and the text behind it, is part of the text of
the operand, which stands between two texts in its turn and lies in the span of the operand. -/
def TakesIn (lexeme : Lexeme) (before word after : List Char) : Prop :=
  ∃ left front back right span, before = left ++ front ∧ after = back ++ right ∧
    lexeme = .operand (String.ofList (front ++ word ++ back)) span ∧
    span.start ≤ byteLength left ∧ byteLength (left ++ (front ++ word ++ back)) ≤ span.stop

/-- What is no white space is not lost when the text of an operand is trimmed. -/
theorem IsSpelled.takesIn {text : String} {span : Span} {left front back : List Char} {c d : Char}
    (h : (Lexeme.operand text span).IsSpelled (front ++ c :: d :: back))
    (hspan : span = ⟨byteLength left, byteLength (left ++ (front ++ c :: d :: back))⟩)
    (hc : isSpace c = false) (hd : isSpace d = false) (right : List Char) :
    (Lexeme.operand text span).TakesIn (left ++ front) [c, d] (back ++ right) := by
  obtain ⟨lead, hfront, -⟩ := Text.exists_trimStart front
  obtain ⟨tail, hback, -⟩ := Text.exists_trimEnd back
  have htext : text = String.ofList (Text.trimStart front ++ [c, d] ++ Text.trimEnd back) := by
    apply String.toList_inj.1
    rw [h.1, Text.trim_append_cons_cons hc hd, String.toList_ofList, List.append_assoc]
    rfl
  refine ⟨left ++ lead, Text.trimStart front, Text.trimEnd back, tail ++ right, span, ?_, ?_,
    htext ▸ rfl, ?_, ?_⟩
  · rw [List.append_assoc, ← hfront]
  · rw [← List.append_assoc, ← hback]
  · rw [hspan, byteLength_append left lead]
    exact Nat.le_add_right _ _
  · have hlead := congrArg byteLength hfront
    have htail := congrArg byteLength hback
    rw [hspan]
    simp only [byteLength_append, Text.byteLength_cons, Text.byteLength_nil] at hlead htail ⊢
    omega

/-- A lexeme that is no operand and has the letters `as` in it is the operator. -/
theorem isApart_of_mem_scan {source : String} {lexeme : Lexeme} {left front back right : List Char}
    (hsource : source.toList = left ++ front ++ 'a' :: 's' :: (back ++ right))
    (hmem : lexeme ∈ scan source) (hoperand : lexeme.isOperand = false)
    (hspelled : lexeme.IsSpelled (front ++ 'a' :: 's' :: back))
    (hspan : lexeme.span.start = byteLength left) :
    Token.IsApart (left ++ front) (back ++ right) := by
  obtain ⟨hnaming, hslice⟩ := hspelled.eq_naming hoperand (c := 'a') (by simp) (by decide)
  have hlength := congrArg List.length hslice
  simp only [List.length_append, List.length_cons, List.length_nil] at hlength
  obtain rfl : front = [] := List.eq_nil_of_length_eq_zero (by omega)
  obtain rfl : back = [] := List.eq_nil_of_length_eq_zero (by omega)
  rw [hnaming] at hmem
  obtain ⟨before, after, hsource', hapart, hspan'⟩ := operator_naming_mem_scan_iff.1 hmem
  have hoffset : byteLength (left ++ []) = byteLength before := by
    rw [List.append_nil, ← hspan, hspan']
  obtain ⟨rfl, hrest⟩ := Text.append_inj_of_byteLength (hsource.symm.trans hsource') hoffset
  obtain rfl : [] ++ right = after := by simpa using hrest
  exact hapart

/-- The word `as` is an operator exactly where a blank stands directly on both sides of it. Wherever
else its letters stand, they are part of the text of an operand. -/
theorem scan_naming (source : String) :
    (∀ span, .operator .naming span ∈ scan source ↔
      ∃ before after, source.toList = before ++ 'a' :: 's' :: after ∧
        Token.IsApart before after ∧ span = ⟨byteLength before, byteLength before + 2⟩) ∧
    ∀ before after, source.toList = before ++ 'a' :: 's' :: after →
      ¬Token.IsApart before after →
        ∃ lexeme ∈ scan source, lexeme.TakesIn before ['a', 's'] after := by
  refine ⟨fun _ ↦ operator_naming_mem_scan_iff, fun before after hsource hnot ↦ ?_⟩
  obtain ⟨lexeme, hmem, ⟨left, front, back, right, rfl, rfl, hspelled, hspan⟩ |
      ⟨hoperand, more, hspelled⟩⟩ :=
    (laidOut_scan source).exists_of_pair (isChain_assemble ..) (by decide) (by decide) hsource
  · rw [Nat.zero_add, Nat.zero_add] at hspan
    refine ⟨lexeme, hmem, ?_⟩
    cases hoperand : lexeme.isOperand with
    | true =>
      cases lexeme with
      | operator | opening | closing => cases hoperand
      | operand text span => exact hspelled.takesIn hspan (by decide) (by decide) right
    | false =>
      refine absurd (isApart_of_mem_scan hsource hmem hoperand hspelled ?_) hnot
      rw [hspan]
  · -- no lexeme but `as` has a letter at its border, and that has another next to it
    obtain hspelled | hspelled := hspelled
    · obtain ⟨-, hslice⟩ := hspelled.eq_naming hoperand (c := 'a') (by simp) (by decide)
      have hlast := congrArg List.getLast? hslice
      simp at hlast
    · obtain ⟨-, hslice⟩ := hspelled.eq_naming hoperand (c := 's') (by simp) (by decide)
      cases hslice

/-- A no-break space is white space but sets no words apart: of the three words in this source the
first has it behind and the second before it, and only the third, between a tab and a form feed, is
an operator. -/
theorem scan_naming_no_break_space :
    let source := "é as\u00a0as\tas\x0cx"
    .operator .naming ⟨10, 12⟩ ∈ scan source ∧
      (∃ lexeme ∈ scan source, lexeme.TakesIn "é ".toList ['a', 's'] "\u00a0as\tas\x0cx".toList) ∧
      ∃ lexeme ∈ scan source, lexeme.TakesIn "é as\u00a0".toList ['a', 's'] "\tas\x0cx".toList := by
  intro source
  obtain ⟨hoperator, htext⟩ := scan_naming "é as\u00a0as\tas\x0cx"
  refine ⟨(hoperator _).2 ⟨"é as\u00a0as\t".toList, "\x0cx".toList, rfl, by decide, rfl⟩, ?_, ?_⟩
  · exact htext _ _ rfl (by decide)
  · exact htext _ _ rfl (by decide)

end Lexeme

end Qualifier
