import Qualifier.Evaluator
import Qualifier.Proofs.Frames
import Qualifier.Proofs.Naming

/-!
# Plain text

A text in which nothing is an operator or a parenthesis needs no evaluation: it is one operand, and
evaluating it gives the text back, up to the white space around it.

Which texts these are is told by their factors (`IsPlainText`): twelve signs that may not occur at
all, and the word `as`, which may not occur between blanks. A factor of a text is a factor of all
texts around it, and wherever a source has one of these factors there is a lexeme other than an
operand (`Lexeme.exists_of_not_isPlainText`). As no two lexemes share a character, the text of an
operand has none of them, whatever its surroundings were; so it is plain
(`Lexeme.isPlainText_of_mem_scan`) and its own only operand.

The main statements are `Evaluator.evaluate_plainText`, about sources without operators, and
`Lexeme.scan_operand_text`, about the operands of all sources.
-/

namespace Qualifier

open Text (byteLength byteLength_append isSpace trim)

/-! ### Signs -/

namespace Token

/-- The signs without which nothing but `as` is more than text. -/
def signs : List String :=
  ["(", ")", "*", "/", "+", "-", "<", ">", "==", "!=", "&&", "||"]

/-- Whether a token is written with signs. -/
def isSymbol : Token → Bool
  | .operator _ | .opening | .closing => true
  | .text _ | .blank _ => false

/-- Each sign is a word. -/
theorem exists_word_of_mem_signs {sign : String} (h : sign ∈ signs) :
    ∃ word : Token, word.IsWord ∧ word.isSymbol = true ∧ word.spelling = sign.toList := by
  have hall : signs.all (fun sign ↦ sign = "(" || sign = ")" ||
      Operator.symbolic.any fun op ↦ op.symbol = sign) = true := by decide
  have hsign := List.all_eq_true.1 hall sign h
  simp only [Bool.or_eq_true, decide_eq_true_eq, List.any_eq_true, or_assoc] at hsign
  obtain rfl | rfl | ⟨op, hop, rfl⟩ := hsign
  · exact ⟨.opening, .opening, rfl, rfl⟩
  · exact ⟨.closing, .closing, rfl, rfl⟩
  · have hne : op ≠ .naming := by
      rintro rfl
      exact absurd hop (by decide)
    exact ⟨.operator op, .operator hne, rfl, rfl⟩

/-- Each symbol begins with a sign. -/
theorem exists_sign_of_symbol {op : Operator} (h : op ≠ .naming) :
    ∃ sign ∈ signs, sign.toList <+: op.symbol.toList := by
  have hany : signs.any (fun sign ↦ sign.toList.isPrefixOf op.symbol.toList) = true := by
    rcases op with op | op | op | _
    · cases op <;> decide
    · cases op <;> decide
    · cases op <;> decide
    · exact absurd rfl h
  obtain ⟨sign, hsign, hbegins⟩ := List.any_eq_true.1 hany
  exact ⟨sign, hsign, List.isPrefixOf_iff_prefix.1 hbegins⟩

theorem IsWord.isReserved_of_isSymbol {token : Token} (h : token.IsWord)
    (hsymbol : token.isSymbol = true) {c : Char} (hc : c ∈ token.spelling) :
    isReserved c = true := by
  cases h with
  | operator hop => exact Operator.isReserved_of_mem_symbol hop hc
  | opening => exact List.mem_singleton.1 hc ▸ rfl
  | closing => exact List.mem_singleton.1 hc ▸ rfl
  | run | lone | blank => cases hsymbol

/-- Where a symbol begins, no text is read and no blanks: a run has no such character, and a
character by itself is text only where no symbol begins. -/
theorem isSymbol_of_begins {token word : Token} {front back rest : List Char} {c : Char}
    (hlongest : token.IsLongest (token.spelling ++ rest))
    (hspelling : token.spelling = front ++ c :: back) (hword : word.IsWord)
    (hsymbol : word.isSymbol = true) (hhead : word.spelling.head? = some c)
    (hbegins : word.spelling <+: c :: (back ++ rest)) : token.isSymbol = true := by
  have hreserved := hword.isReserved_of_isSymbol hsymbol (List.mem_of_head? hhead)
  have hmem : c ∈ token.spelling := by simp [hspelling]
  have htoken := hlongest.word
  cases htoken with
  | operator | opening | closing => rfl
  | run _ hall =>
    have hplain := hall c hmem
    simp [isPlain, hreserved] at hplain
  | blank _ hall =>
    rw [isReserved_of_isBlank (hall c hmem)] at hreserved
    cases hreserved
  | @lone d hlone =>
    obtain rfl : c = d := List.mem_singleton.1 hmem
    obtain ⟨rfl, rfl⟩ : front = [] ∧ back = [] := by
      have hlength := congrArg List.length hspelling
      simp only [spelling, List.length_append, List.length_cons, List.length_nil] at hlength
      exact ⟨List.eq_nil_of_length_eq_zero (by omega), List.eq_nil_of_length_eq_zero (by omega)⟩
    obtain ⟨more, hmore⟩ := List.head?_eq_some_iff.1 hhead
    have hle := hlongest.longest word hword hbegins
    obtain rfl : more = [] := by
      rw [hmore] at hle
      exact List.eq_nil_of_length_eq_zero (Nat.le_zero.1 (Nat.le_of_succ_le_succ hle))
    rw [← hword.first_eq hmore, (IsWord.lone hlone).first_eq rfl] at hsymbol
    cases hsymbol

/-- A symbol makes a lexeme by itself wherever it stands. -/
theorem exists_own?_of_isSymbol {token : Token} (h : token.isSymbol = true) (place : Span)
    (afterBlank : Bool) (rest : List Token) :
    ∃ lexeme, token.own? place afterBlank rest = some lexeme ∧ lexeme.isOperand = false ∧
      lexeme.span = place := by
  cases token with
  | operator | opening | closing => exact ⟨_, rfl, rfl, rfl⟩
  | text | blank => cases h

end Token

/-- Nothing in the text is an operator or a parenthesis. -/
structure IsPlainText (text : List Char) : Prop where
  /-- No sign occurs, -/
  sign : ∀ sign ∈ Token.signs, ¬sign.toList <:+: text
  /-- and the word `as` does not occur between blanks. -/
  naming : ∀ before after, text = before ++ 'a' :: 's' :: after → ¬Token.IsApart before after

/-- No part of a plain text begins with a sign. -/
theorem IsPlainText.ne_append {text before slice after : List Char} (h : IsPlainText text)
    (sign : String) (hsign : sign ∈ Token.signs) (hbegins : sign.toList <+: slice) :
    text ≠ before ++ slice ++ after := by
  rintro rfl
  exact h.sign sign hsign (hbegins.isInfix.trans (List.infix_append before slice after))

namespace Lexeme

variable {source : String} {before cs after : List Char}

/-- Some lexeme other than an operand takes the byte at an offset. -/
def IsTakenAt (source : String) (offset : Nat) : Prop :=
  ∃ lexeme ∈ scan source, lexeme.isOperand = false ∧ lexeme.span.start ≤ offset ∧
    offset < lexeme.span.stop

/-- Where a sign begins, there is a lexeme other than an operand. -/
theorem isTakenAt_of_sign {sign : String} (h : sign ∈ Token.signs)
    (hsource : source.toList = before ++ sign.toList ++ after) :
    IsTakenAt source (byteLength before) := by
  obtain ⟨word, hword, hsymbol, hspelling⟩ := Token.exists_word_of_mem_signs h
  cases hsign : sign.toList with
  | nil => exact absurd (hspelling.trans hsign) hword.ne_nil
  | cons c more =>
    have htext : (Token.scan source.toList).flatMap Token.spelling =
        before ++ c :: (more ++ after) := by
      rw [Token.scan_spelling, hsource, hsign, List.append_assoc, List.cons_append]
    obtain ⟨xs, token, ys, front, back, hscan, rfl, htoken, hback⟩ :=
      Token.exists_of_flatMap_eq htext
    have hhead : word.spelling.head? = some c := by rw [hspelling, hsign, List.head?_cons]
    have hbegins : word.spelling <+: c :: (back ++ ys.flatMap Token.spelling) := by
      rw [hspelling, hsign, ← hback, ← List.cons_append]
      exact List.prefix_append _ _
    have hread := Token.isSymbol_of_begins (Token.isLongest_of_scan_eq_append hscan) htoken hword
      hsymbol hhead hbegins
    obtain ⟨lexeme, hown, hoperand, hspan⟩ := Token.exists_own?_of_isSymbol hread
      ⟨0 + byteLength (xs.flatMap Token.spelling),
        0 + byteLength (xs.flatMap Token.spelling) + byteLength token.spelling⟩
      (Token.endsBlank false xs) ys
    refine ⟨lexeme, (mem_assemble_iff hoperand).2 ⟨xs, token, ys, hscan, hown⟩, hoperand, ?_⟩
    have hpos := c.utf8Size_pos
    simp only [hspan, htoken, byteLength_append, Text.byteLength_cons]
    omega

/-- Where the word `as` stands between blanks, there is the operator. -/
theorem isTakenAt_of_isApart (hsource : source.toList = before ++ 'a' :: 's' :: after)
    (h : Token.IsApart before after) : IsTakenAt source (byteLength before) :=
  ⟨.operator .naming ⟨byteLength before, byteLength before + 2⟩,
    operator_naming_mem_scan_iff.2 ⟨before, after, hsource, h, rfl⟩, rfl, Nat.le_refl _,
    Nat.lt_add_of_pos_right Nat.two_pos⟩

/-- A part of a source that is not plain has a place where there is a lexeme other than an
operand. -/
theorem exists_of_not_isPlainText (hsource : source.toList = before ++ cs ++ after)
    (h : ¬IsPlainText cs) :
    ∃ offset, byteLength before ≤ offset ∧ offset < byteLength (before ++ cs) ∧
      IsTakenAt source offset := by
  by_contra hnone
  refine h ⟨?_, ?_⟩
  · rintro sign hsign ⟨front, back, rfl⟩
    have hnonempty : ∀ sign ∈ Token.signs, sign.toList ≠ [] := by decide
    have hpos := Text.byteLength_pos (hnonempty sign hsign)
    have hsplit : source.toList = before ++ front ++ sign.toList ++ (back ++ after) := by
      simp [hsource]
    refine hnone ⟨_, ?_, ?_, isTakenAt_of_sign hsign hsplit⟩
    · simp only [byteLength_append]
      omega
    · simp only [byteLength_append]
      omega
  · rintro front back rfl hapart
    have hsplit : source.toList = before ++ front ++ 'a' :: 's' :: (back ++ after) := by
      simp [hsource]
    refine hnone ⟨_, ?_, ?_, isTakenAt_of_isApart hsplit (hapart.append before after)⟩
    · simp only [byteLength_append]
      omega
    · have hpos := 'a'.utf8Size_pos
      simp only [byteLength_append, Text.byteLength_cons]
      omega

/-- A source has no lexemes but operands exactly if it is plain. -/
theorem forall_isOperand_iff :
    (∀ lexeme ∈ scan source, lexeme.isOperand = true) ↔ IsPlainText source.toList := by
  constructor
  · intro hall
    by_contra hnot
    have hsource : source.toList = [] ++ source.toList ++ [] := by simp
    obtain ⟨offset, -, -, lexeme, hmem, hoperand, -⟩ := exists_of_not_isPlainText hsource hnot
    rw [hall lexeme hmem] at hoperand
    cases hoperand
  · intro hplain lexeme hmem
    obtain ⟨before, slice, after, hsource, hspelled, hspan⟩ := scan_standsIn hmem
    cases lexeme with
    | operand => rfl
    | opening =>
      obtain rfl : slice = ['('] := hspelled
      exact absurd hsource (hplain.ne_append "(" (by decide) (List.prefix_refl _))
    | closing =>
      obtain rfl : slice = [')'] := hspelled
      exact absurd hsource (hplain.ne_append ")" (by decide) (List.prefix_refl _))
    | operator op span =>
      obtain rfl : slice = op.symbol.toList := hspelled
      by_cases hop : op = .naming
      · subst hop
        obtain ⟨before, after, hsource, hapart, -⟩ := operator_naming_mem_scan_iff.1 hmem
        exact absurd hapart (hplain.naming before after hsource)
      · obtain ⟨sign, hsign, hbegins⟩ := Token.exists_sign_of_symbol hop
        exact absurd hsource (hplain.ne_append sign hsign hbegins)

/-- Plain text is white space, or one operand between white space. -/
theorem exists_scan_eq_of_isPlainText (h : IsPlainText source.toList) :
    (scan source = [] ∧ ∀ c ∈ source.toList, isSpace c = true) ∨
      ∃ text gap slice gap', source.toList = gap ++ slice ++ gap' ∧
        (∀ c ∈ gap, isSpace c = true) ∧ (∀ c ∈ gap', isSpace c = true) ∧
        text.toList = trim slice ∧ text ≠ "" ∧
        scan source = [.operand text ⟨byteLength gap, byteLength (gap ++ slice)⟩] := by
  have hall := forall_isOperand_iff.2 h
  have hparted : (scan source).IsChain AreParted := isChain_assemble ..
  have hlaid := laidOut_scan source
  generalize source.toList = cs at hlaid ⊢
  generalize scan source = lexemes at hall hparted hlaid ⊢
  cases hlaid with
  | nil hgap => exact .inl ⟨rfl, hgap⟩
  | @cons _ gap slice _ lexeme rest hgap hspelled hspan hrest =>
    obtain ⟨hoperand, hothers⟩ := List.forall_mem_cons.1 hall
    cases hrest with
    | cons =>
      -- two operands would stand next to each other
      obtain hnot | hnot := (List.isChain_cons_cons.1 hparted).1
      · rw [hoperand] at hnot
        cases hnot
      · rw [hothers _ List.mem_cons_self] at hnot
        cases hnot
    | nil hgap' =>
      cases lexeme with
      | operator | opening | closing => cases hoperand
      | operand text span =>
        rw [Nat.zero_add, Nat.zero_add] at hspan
        obtain rfl : span = _ := hspan
        exact .inr ⟨text, gap, slice, _, rfl, hgap, hgap', hspelled.1, hspelled.2, rfl⟩

/-- Lexemes that have a byte in common are the same. -/
theorem eq_of_mem_spans {lexeme other : Lexeme} {offset : Nat} (hlexeme : lexeme ∈ scan source)
    (hother : other ∈ scan source)
    (h : lexeme.span.start ≤ offset ∧ offset < lexeme.span.stop)
    (h' : other.span.start ≤ offset ∧ offset < other.span.stop) : lexeme = other := by
  have hpairwise : (scan source).Pairwise fun a b ↦
      a.span.stop ≤ b.span.start ∨ b.span.stop ≤ a.span.start :=
    (laidOut_scan source).pairwise.imp .inl
  have hsymm : Std.Symm fun a b : Lexeme ↦
      a.span.stop ≤ b.span.start ∨ b.span.stop ≤ a.span.start := ⟨fun _ _ ↦ Or.symm⟩
  by_contra hne
  have hparted := hpairwise.forall hlexeme hother hne
  omega

/-- The text of an operand is plain: a lexeme that took a part of it would share that part with the
operand. -/
theorem isPlainText_of_mem_scan {text : String} {span : Span}
    (h : .operand text span ∈ scan source) : IsPlainText text.toList := by
  obtain ⟨before, slice, after, hsource, ⟨htext, -⟩, rfl⟩ := scan_standsIn h
  obtain ⟨lead, tail, hslice, -, -⟩ := Text.exists_trim slice
  rw [← htext] at hslice
  have hsplit : source.toList = before ++ lead ++ text.toList ++ (tail ++ after) := by
    rw [hsource, hslice]
    simp
  by_contra hnot
  obtain ⟨offset, hstart, hstop, other, hmem, hoperand, hspan⟩ :=
    exists_of_not_isPlainText hsplit hnot
  have hlength := congrArg byteLength hslice
  simp only [byteLength_append] at hlength hstart hstop
  have hstands : byteLength before ≤ offset ∧ offset < byteLength before + byteLength slice := by
    omega
  obtain rfl := eq_of_mem_spans h hmem hstands hspan
  cases hoperand

/-- Plain text with no white space around it is one operand from end to end. -/
theorem scan_eq_of_trim_eq_self (h : IsPlainText source.toList)
    (htrim : trim source.toList = source.toList) (hne : source ≠ "") :
    scan source = [.operand source ⟨0, source.utf8ByteSize⟩] := by
  obtain ⟨-, hspace⟩ | ⟨text, gap, slice, gap', hsource, hgap, hgap', htext, -, hscan⟩ :=
    exists_scan_eq_of_isPlainText h
  · rw [Text.trim_eq_nil_iff.2 hspace] at htrim
    exact absurd (String.toList_eq_nil_iff.1 htrim.symm) hne
  · rw [hsource] at htrim
    obtain ⟨rfl, rfl⟩ := Text.eq_nil_of_trim_eq_self hgap hgap' htrim
    rw [List.nil_append, List.append_nil] at hsource htrim
    obtain rfl : text = source := by
      apply String.toList_inj.1
      rw [htext, htrim, hsource]
    rw [hscan, List.nil_append, ← hsource, Text.byteLength_toList]
    rfl

/-- The text of an operand is an expression of which it is the only lexeme. -/
theorem scan_operand_text {text : String} {span : Span} (h : .operand text span ∈ scan source) :
    scan text = [.operand text ⟨0, text.utf8ByteSize⟩] := by
  obtain ⟨-, slice, -, -, ⟨htext, hne⟩, -⟩ := scan_standsIn h
  have htrim : trim text.toList = text.toList := by rw [htext, Text.trim_trim]
  exact scan_eq_of_trim_eq_self (isPlainText_of_mem_scan h) htrim hne

/-- Trimming off the vertical tab leaves a word `as` at the edge of this operand, where it is text
as before. -/
theorem scan_operand_text_vertical_tab :
    let source := "a = b &&\x0bas b"
    .operator (.logic .and) ⟨6, 8⟩ ∈ scan source ∧ .operand "as b" ⟨8, 13⟩ ∈ scan source ∧
      scan "as b" = [.operand "as b" ⟨0, 4⟩] := by
  intro source
  have hscan : scan "a = b &&\x0bas b" = [.operand "a = b" ⟨0, 5⟩, .operator (.logic .and) ⟨6, 8⟩,
      .operand "as b" ⟨8, 13⟩] := by decide +kernel
  have hmem : .operand "as b" ⟨8, 13⟩ ∈ scan "a = b &&\x0bas b" := by simp [hscan]
  exact ⟨by simp [source, hscan], hmem, scan_operand_text hmem⟩

end Lexeme

/-! ### Evaluation -/

theorem Operand.ofText_of_head? {text : String} (hpath : text.toList.head? ≠ some '$')
    (hcall : text.toList.head? ≠ some '@') : ofText text = .literal text := by
  rw [ofText]
  split
  · next htext => simp [htext] at hpath
  · next htext => simp [htext] at hcall
  · rfl

namespace Expression

variable {σ : Type} (env : Environment σ) (limit : Nat) (label : String) (world : σ)

theorem evaluate_nil :
    evaluate env limit [] label world = ⟨.error (.malformed (.emptyExpression 0)), [], world⟩ := by
  rw [evaluate, value_eq_pass]
  rfl

/-- A literal by itself is the text that it is, whatever the text may spell. -/
theorem evaluate_literal {text : String} (h : Operand.ofText text = .literal text) (span : Span) :
    evaluate env limit [.operand text span] label world =
      ⟨.ok ⟨.string text, label⟩, [], world⟩ := by
  have hstep : (Stack.empty.step env limit (.operand text span)).run ⟨⟨label, #[]⟩, world⟩ =
      (.ok ⟨[.operand (.ofLiteral text) (some text) span.start], []⟩, ⟨⟨label, #[]⟩, world⟩) := by
    rw [Stack.step, h]
    rfl
  have hrun : (pass env limit [.operand text span]).run ⟨⟨label, #[]⟩, world⟩ =
      (.ok (.string text), ⟨⟨label, #[]⟩, world⟩) := by
    rw [pass, Stack.resume_cons, run_bind_of_ok hstep, Stack.resume_nil]
    rfl
  exact evaluate_eq_report hrun

end Expression

/-- What becomes of a source that is plain text. -/
structure PassesThrough (source : String) : Prop where
  /-- White space has no lexemes, and it is an empty expression. -/
  space : (∀ c ∈ source.toList, isSpace c = true) → Lexeme.scan source = [] ∧
    ∀ {σ : Type} (env : Environment σ) (limit : Nat) (world : σ),
      (((Evaluator.ofSource source).limitedTo limit).evaluate env world).1 =
        ⟨.error (.malformed (.emptyExpression 0)), [], world⟩
  /-- Everything else is one operand, the source without the white space around it. -/
  operand : ¬(∀ c ∈ source.toList, isSpace c = true) →
    ∃ span, Lexeme.scan source = [.operand (String.ofList (trim source.toList)) span]
  /-- Unless it is a path or a call it amounts to its own text, labelled with the source, in every
  environment. Nothing is called. -/
  literal : ¬(∀ c ∈ source.toList, isSpace c = true) →
    (trim source.toList).head? ≠ some '$' → (trim source.toList).head? ≠ some '@' →
    ∀ {σ : Type} (env : Environment σ) (limit : Nat) (world : σ),
      (((Evaluator.ofSource source).limitedTo limit).evaluate env world).1 =
        ⟨.ok ⟨.string (String.ofList (trim source.toList)), source⟩, [], world⟩

namespace Evaluator

/-- A source has no operators and no parentheses exactly if it is plain text, and plain text passes
through. -/
theorem evaluate_plainText (source : String) :
    ((∀ lexeme ∈ Lexeme.scan source, lexeme.isOperand = true) ↔ IsPlainText source.toList) ∧
      (IsPlainText source.toList → PassesThrough source) := by
  refine ⟨Lexeme.forall_isOperand_iff, fun h ↦ ?_⟩
  obtain ⟨hscan, hspace⟩ | ⟨text, gap, slice, gap', hsource, hgap, hgap', htext, hne, hscan⟩ :=
    Lexeme.exists_scan_eq_of_isPlainText h
  · refine ⟨fun _ ↦ ⟨hscan, fun env limit world ↦ ?_⟩, absurd hspace, absurd hspace⟩
    rw [evaluate_fst]
    show Expression.evaluate env limit (Lexeme.scan source) source world = _
    rw [hscan, Expression.evaluate_nil]
  · have htrim : trim source.toList = text.toList := by
      rw [hsource, Text.trim_append hgap hgap', htext]
    have hnot : ¬∀ c ∈ source.toList, isSpace c = true := fun hspace ↦ by
      rw [Text.trim_eq_nil_iff.2 hspace] at htrim
      exact hne (String.toList_eq_nil_iff.1 htrim.symm)
    rw [← String.ofList_toList (s := text), ← htrim] at hscan
    refine ⟨fun hspace ↦ absurd hspace hnot, fun _ ↦ ⟨_, hscan⟩, ?_⟩
    intro _ hpath hcall σ env limit world
    rw [evaluate_fst]
    show Expression.evaluate env limit (Lexeme.scan source) source world = _
    rw [hscan, Expression.evaluate_literal]
    exact Operand.ofText_of_head? (by simpa using hpath) (by simpa using hcall)

/-- A numeral by itself remains a text, and blanks with wider spaces are an empty expression. Every
name is a callback here that counts its calls, and none is called. -/
theorem evaluate_plainText_of_numeral :
    let env : Environment Nat := ⟨fun _ ↦ none, fun _ ↦ some fun calls ↦ (.null, calls + 1)⟩
    Qualifier.evaluate " 1e3\u3000" env 0 = ⟨.ok ⟨.string "1e3", " 1e3\u3000"⟩, [], 0⟩ ∧
      Qualifier.evaluate "\t\u3000" env 0 =
        ⟨.error (.malformed (.emptyExpression 0)), [], 0⟩ := by
  intro env
  have hnumeral : Lexeme.scan " 1e3\u3000" = [.operand "1e3" ⟨1, 7⟩] := by decide +kernel
  have hspace : Lexeme.scan "\t\u3000" = [] := by decide +kernel
  obtain ⟨hplain, hpasses⟩ := evaluate_plainText " 1e3\u3000"
  obtain ⟨hplain', hpasses'⟩ := evaluate_plainText "\t\u3000"
  have hnot : ¬∀ c ∈ " 1e3\u3000".toList, isSpace c = true := fun hall ↦
    absurd (hall '1' (by decide)) (by decide)
  have hall : ∀ c ∈ "\t\u3000".toList, isSpace c = true := List.all_eq_true.1 (by decide)
  have hliteral := (hpasses (hplain.1 (by simp [hnumeral, Lexeme.isOperand]))).literal hnot
    (by decide) (by decide) env defaultLimit 0
  have hempty := (hpasses' (hplain'.1 (by simp [hspace]))).space hall
  exact ⟨hliteral, hempty.2 env defaultLimit 0⟩

end Evaluator

end Qualifier
