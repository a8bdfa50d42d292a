import Mathlib.Data.List.TakeWhile
import Qualifier.Proofs.Joining

/-!
# Tokens are longest matches

What a token may spell is a matter of patterns (`Token.IsWord`), and the tokens of a text are the
longest words that begin where the one before has ended. `Token.Lexes` says what this rule makes of
a text without saying how: it leaves open what becomes of a text that no word begins, and which of
several words is taken if they are equally long.

Neither happens. Some word begins every text, as each character is plain, blank, or a symbol or
text by itself, and the word that `Token.first` finds is the longest (`Token.isLongest_first`): runs
go on as far as they can, and no symbol comes in the table before one that it begins. A word is
determined by its spelling (`Token.IsWord.first_eq`). So the rule leaves no choice, and the tokens
are those of `Token.scan`, without an error and without a gap between them
(`Token.lexes_iff`).
-/

namespace Qualifier

/-! ### Symbols -/

namespace Operator

theorem mem_symbolic {op : Operator} (h : op ≠ .naming) : op ∈ symbolic := by
  have hall := mem_all op
  rw [all, List.mem_append, List.mem_singleton] at hall
  exact hall.resolve_right h

/-- No symbol comes before one that it begins. -/
theorem pairwise_symbolic :
    symbolic.Pairwise fun a b ↦ a.symbol.toList.isPrefixOf b.symbol.toList = false := by
  decide

/-- Every character of a symbol takes part in symbols. -/
theorem isReserved_of_mem_symbol {op : Operator} (h : op ≠ .naming) {c : Char}
    (hc : c ∈ op.symbol.toList) : Token.isReserved c = true := by
  have hall : op.symbol.toList.all Token.isReserved = true := by
    rcases op with op | op | op | _
    · cases op <;> decide
    · cases op <;> decide
    · cases op <;> decide
    · exact absurd rfl h
  exact List.all_eq_true.1 hall c hc

end Operator

namespace Token

/-- Blanks take part in no symbol. -/
theorem isReserved_of_isBlank {c : Char} (h : isBlank c = true) : isReserved c = false := by
  simp only [isBlank, Bool.or_eq_true, decide_eq_true_eq] at h
  rcases h with (((rfl | rfl) | rfl) | rfl) | rfl <;> decide

/-! ### Words -/

/-- Whether a character that begins operators is a text of its own where it makes none. -/
def isLone (c : Char) : Bool :=
  "=!&|".toList.contains c

/-- The token is spelled as tokens of its kind are. -/
inductive IsWord : Token → Prop
  /-- Each symbol is a word, -/
  | operator {op : Operator} (h : op ≠ .naming) : IsWord (.operator op)
  /-- and so is each parenthesis. -/
  | opening : IsWord .opening
  | closing : IsWord .closing
  /-- Text is a run of plain characters, -/
  | run {run : List Char} (hne : run ≠ []) (h : ∀ c ∈ run, isPlain c = true) : IsWord (.text run)
  /-- or one character that does not make an operator. -/
  | lone {c : Char} (h : isLone c = true) : IsWord (.text [c])
  /-- Blanks make runs, too. -/
  | blank {run : List Char} (hne : run ≠ []) (h : ∀ c ∈ run, isBlank c = true) :
    IsWord (.blank run)

/-- The token is a word that begins the text, and there is no longer one. -/
structure IsLongest (token : Token) (text : List Char) : Prop where
  /-- It is a word, -/
  word : token.IsWord
  /-- it begins the text, -/
  begins : token.spelling <+: text
  /-- and so does no longer word. -/
  longest : ∀ other : Token, other.IsWord → other.spelling <+: text →
    other.spelling.length ≤ token.spelling.length

/-- What a text can fall into by the rule of the longest match, from an offset on: tokens, each with
its place, and stretches that no word begins, without one. -/
inductive Lexes : Nat → List Char → List (Option Token × Span) → Prop
  /-- Nothing is left. -/
  | nil (offset : Nat) : Lexes offset [] []
  /-- A longest word is taken. -/
  | token {offset : Nat} {token : Token} {rest : List Char} {raw : List (Option Token × Span)}
    (h : token.IsLongest (token.spelling ++ rest))
    (hrest : Lexes (offset + Text.byteLength token.spelling) rest raw) :
    Lexes offset (token.spelling ++ rest)
      ((some token, ⟨offset, offset + Text.byteLength token.spelling⟩) :: raw)
  /-- No word begins what is left, and some of it is skipped. -/
  | error {offset : Nat} {skipped rest : List Char} {raw : List (Option Token × Span)}
    (h : ∀ token : Token, token.IsWord → ¬token.spelling <+: skipped ++ rest)
    (hne : skipped ≠ []) (hrest : Lexes (offset + Text.byteLength skipped) rest raw) :
    Lexes offset (skipped ++ rest) ((none, ⟨offset, offset + Text.byteLength skipped⟩) :: raw)

theorem IsWord.ne_nil {token : Token} (h : token.IsWord) : token.spelling ≠ [] := by
  cases h with
  | @operator op _ =>
    rcases op with op | op | op | _ <;> (try cases op) <;> decide
  | opening => exact List.cons_ne_nil _ _
  | closing => exact List.cons_ne_nil _ _
  | run hne => exact hne
  | lone => exact List.cons_ne_nil _ _
  | blank hne => exact hne

/-! ### The first token -/

/-- A run that begins a text begins with the first character, and does not go on longer than the
text does so. -/
theorem length_le_takeWhile {p : Char → Bool} {run rest : List Char} {c : Char} (hne : run ≠ [])
    (hall : ∀ d ∈ run, p d = true) (h : run <+: c :: rest) :
    p c = true ∧ run.length ≤ (c :: rest.takeWhile p).length := by
  cases run with
  | nil => exact absurd rfl hne
  | cons d run =>
    obtain ⟨rfl, rest, rfl⟩ := List.cons_prefix_cons.1 h
    obtain ⟨hfirst, hrun⟩ := List.forall_mem_cons.1 hall
    refine ⟨hfirst, Nat.succ_le_succ ?_⟩
    rw [List.takeWhile_append_of_pos hrun, List.length_append]
    exact Nat.le_add_right _ _

/-- What a word can be that begins a text: one character, a symbol, or a run. -/
theorem IsWord.cases_of_begins {token : Token} {c : Char} {rest : List Char} (h : token.IsWord)
    (hbegins : token.spelling <+: c :: rest) :
    token.spelling.length = 1 ∨ (∃ op ∈ Operator.symbolic, token = .operator op) ∨
      (isPlain c = true ∧ token.spelling.length ≤ (c :: rest.takeWhile isPlain).length) ∨
      (isBlank c = true ∧ token.spelling.length ≤ (c :: rest.takeWhile isBlank).length) := by
  cases h with
  | operator hop => exact .inr (.inl ⟨_, Operator.mem_symbolic hop, rfl⟩)
  | opening => exact .inl rfl
  | closing => exact .inl rfl
  | run hne hall => exact .inr (.inr (.inl (length_le_takeWhile hne hall hbegins)))
  | lone => exact .inl rfl
  | blank hne hall => exact .inr (.inr (.inr (length_le_takeWhile hne hall hbegins)))

/-- The symbol that is found first is the longest. -/
theorem length_le_of_leadingOperator? {text : List Char} {op other : Operator}
    (h : leadingOperator? text = some op) (hother : other ∈ Operator.symbolic)
    (hbegins : other.symbol.toList <+: text) :
    other.symbol.toList.length ≤ op.symbol.toList.length := by
  obtain ⟨-, before, after, htable, hbefore⟩ := List.find?_eq_some_iff_append.1 h
  have hpairwise := Operator.pairwise_symbolic
  rw [htable] at hother hpairwise
  rw [List.mem_append, List.mem_cons] at hother
  obtain hmem | rfl | hmem := hother
  · have hnot := hbefore other hmem
    rw [List.isPrefixOf_iff_prefix.2 hbegins] at hnot
    cases hnot
  · exact Nat.le_refl _
  · -- the other comes later in the table, so it is not one that begins with the first
    have hnot := (List.pairwise_cons.1 (List.pairwise_append.1 hpairwise).2.1).1 other hmem
    by_contra hlength
    have hprefix := List.prefix_of_prefix_length_le (symbol_prefix_of_leadingOperator? h) hbegins
      (Nat.le_of_not_le hlength)
    rw [List.isPrefixOf_iff_prefix.2 hprefix] at hnot
    cases hnot

variable {c : Char} {rest : List Char}

/-- No operator begins with a character that takes part in no symbol. -/
theorem leadingOperator?_of_isReserved (h : isReserved c = false) :
    leadingOperator? (c :: rest) = none := by
  refine List.find?_eq_none.2 fun op hop hprefix ↦ ?_
  have hne : op ≠ .naming := by
    rintro rfl
    exact absurd hop (by decide)
  cases hsymbol : op.symbol.toList with
  | nil => exact (IsWord.operator hne).ne_nil hsymbol
  | cons d symbol =>
    rw [hsymbol, List.isPrefixOf_iff_prefix] at hprefix
    obtain ⟨rfl, -⟩ := List.cons_prefix_cons.1 hprefix
    rw [Operator.isReserved_of_mem_symbol hne (hsymbol ▸ List.mem_cons_self)] at h
    cases h

theorem first_of_isPlain (h : isPlain c = true) :
    first c rest = .text (c :: rest.takeWhile isPlain) := by
  obtain ⟨hblank, hreserved⟩ : isBlank c = false ∧ isReserved c = false := by
    simpa [isPlain] using h
  have hopening : c ≠ '(' := by
    rintro rfl
    cases hreserved
  have hclosing : c ≠ ')' := by
    rintro rfl
    cases hreserved
  rw [first, leadingOperator?_of_isReserved hreserved]
  simp [hopening, hclosing, hblank, h]

theorem first_of_isBlank (h : isBlank c = true) :
    first c rest = .blank (c :: rest.takeWhile isBlank) := by
  have hopening : c ≠ '(' := by
    rintro rfl
    cases h
  have hclosing : c ≠ ')' := by
    rintro rfl
    cases h
  rw [first, leadingOperator?_of_isReserved (isReserved_of_isBlank h)]
  simp [hopening, hclosing, h]

/-- A character that takes part in symbols is a parenthesis, a symbol, or a text of its own. -/
theorem cases_of_isReserved (h : isReserved c = true) :
    c = '(' ∨ c = ')' ∨ isLone c = true ∨ ∃ op ∈ Operator.symbolic, op.symbol.toList = [c] := by
  have hall : "()*/+-=!<>&|".toList.all (fun c ↦ c = '(' || c = ')' || isLone c ||
      Operator.symbolic.any fun op ↦ op.symbol.toList = [c]) = true := by decide
  rw [isReserved, List.contains_iff_mem] at h
  simpa [or_assoc] using List.all_eq_true.1 hall c h

/-- What begins a text is a word. -/
theorem isWord_first (c : Char) (rest : List Char) : (first c rest).IsWord := by
  rw [first]
  split
  · next op hop =>
    refine .operator ?_
    rintro rfl
    exact absurd (List.mem_of_find?_eq_some hop) (by decide)
  · next hnone =>
    split
    · exact .opening
    split
    · exact .closing
    split
    · next hblank =>
      refine .blank (List.cons_ne_nil _ _) ?_
      exact List.forall_mem_cons.2 ⟨hblank, fun d hd ↦ List.mem_takeWhile_imp hd⟩
    split
    · next hplain =>
      refine .run (List.cons_ne_nil _ _) ?_
      exact List.forall_mem_cons.2 ⟨hplain, fun d hd ↦ List.mem_takeWhile_imp hd⟩
    · next hopening hclosing hblank hplain =>
      have hreserved : isReserved c = true := by simpa [isPlain, hblank] using hplain
      obtain h | h | h | ⟨op, hop, hsymbol⟩ := cases_of_isReserved hreserved
      · exact absurd h hopening
      · exact absurd h hclosing
      · exact .lone h
      · refine absurd ?_ (List.find?_eq_none.1 hnone op hop)
        rw [hsymbol, List.isPrefixOf_iff_prefix]
        exact ⟨rest, rfl⟩

/-- What begins a text is the longest word that does. -/
theorem isLongest_first (c : Char) (rest : List Char) : (first c rest).IsLongest (c :: rest) where
  word := isWord_first c rest
  begins := spelling_first_isPrefix c rest
  longest other hword hbegins := by
    obtain hone | ⟨op, hop, rfl⟩ | ⟨hplain, hlength⟩ | ⟨hblank, hlength⟩ :=
      hword.cases_of_begins hbegins
    · rw [hone]
      exact List.length_pos_iff.2 (spelling_first_ne_nil c rest)
    · have hsome : (leadingOperator? (c :: rest)).isSome :=
        List.find?_isSome.2 ⟨op, hop, List.isPrefixOf_iff_prefix.2 hbegins⟩
      obtain ⟨found, hfound⟩ := Option.isSome_iff_exists.1 hsome
      rw [first, hfound]
      exact length_le_of_leadingOperator? hfound hop hbegins
    · rwa [first_of_isPlain hplain]
    · rwa [first_of_isBlank hblank]

/-- A word is what its own spelling begins with. -/
theorem IsWord.first_eq {token : Token} (h : token.IsWord)
    (hspelling : token.spelling = c :: rest) : first c rest = token := by
  cases h with
  | @operator op hop =>
    have hscan := scan_symbol op hop
    rw [show op.symbol.toList = c :: rest from hspelling, scan] at hscan
    exact (List.cons.inj hscan).1
  | opening =>
    cases hspelling
    rfl
  | closing =>
    cases hspelling
    rfl
  | run _ hall =>
    cases hspelling
    obtain ⟨hfirst, hrest⟩ := List.forall_mem_cons.1 hall
    rw [first_of_isPlain hfirst, List.takeWhile_eq_self_iff.2 hrest]
  | lone hlone =>
    cases hspelling
    rw [isLone, List.contains_iff_mem] at hlone
    have hall : "=!&|".toList.all (fun d ↦ first d [] = .text [d]) = true := by decide
    exact of_decide_eq_true (List.all_eq_true.1 hall _ hlone)
  | blank _ hall =>
    cases hspelling
    obtain ⟨hfirst, hrest⟩ := List.forall_mem_cons.1 hall
    rw [first_of_isBlank hfirst, List.takeWhile_eq_self_iff.2 hrest]

/-- There is one longest word, and that is the first token. -/
theorem IsLongest.eq_first {token : Token} (h : token.IsLongest (c :: rest)) :
    token = first c rest := by
  have hfirst := isLongest_first c rest
  have hlength := Nat.le_antisymm (hfirst.longest token h.word h.begins)
    (h.longest _ hfirst.word hfirst.begins)
  have hprefix := List.prefix_of_prefix_length_le h.begins hfirst.begins (Nat.le_of_eq hlength)
  have hspelling := hprefix.eq_of_length hlength
  cases hhead : token.spelling with
  | nil => exact absurd hhead h.word.ne_nil
  | cons d more =>
    rw [← h.word.first_eq hhead, ← hfirst.word.first_eq (hspelling ▸ hhead)]

theorem IsLongest.scan_append {token : Token} (h : token.IsLongest (token.spelling ++ rest)) :
    scan (token.spelling ++ rest) = token :: scan rest := by
  cases hspelling : token.spelling with
  | nil => exact absurd hspelling h.word.ne_nil
  | cons c more =>
    rw [hspelling] at h
    exact scan_cons h.eq_first.symm (by rw [hspelling]; exact List.drop_left)

/-! ### All tokens -/

theorem isWord_of_mem_scan {token : Token} {text : List Char} (h : token ∈ scan text) :
    token.IsWord := by
  fun_induction scan text with
  | case1 => cases h
  | case2 c rest ih =>
    obtain rfl | h := List.mem_cons.1 h
    · exact isWord_first c rest
    · exact ih h

/-- Tokens with their places, the first at an offset. -/
def place (offset : Nat) : List Token → List (Token × Span)
  | [] => []
  | token :: rest =>
    let stop := offset + Text.byteLength token.spelling
    (token, ⟨offset, stop⟩) :: place stop rest

/-- The rule of the longest match leaves no choice and always finds a token: what it makes of a text
are the tokens of the text, each at its place. -/
theorem lexes_iff {offset : Nat} {text : List Char} {raw : List (Option Token × Span)} :
    Lexes offset text raw ↔
      raw = (place offset (scan text)).map fun placed ↦ (some placed.1, placed.2) := by
  constructor
  · intro h
    induction h with
    | nil =>
      rw [scan_nil]
      rfl
    | token h _ ih =>
      rw [h.scan_append, ih]
      rfl
    | @error _ skipped rest _ h hne =>
      cases skipped with
      | nil => exact absurd rfl hne
      | cons c more =>
        exact absurd (isLongest_first c (more ++ rest)).begins (h _ (isWord_first _ _))
  · rintro rfl
    fun_induction scan text generalizing offset with
    | case1 => exact .nil offset
    | case2 c rest ih =>
      have htext := List.prefix_iff_eq_append.1 (spelling_first_isPrefix c rest)
      have hfirst := isLongest_first c rest
      have hlexes : Lexes offset ((first c rest).spelling ++ _) _ := .token (htext.symm ▸ hfirst) ih
      rwa [htext] at hlexes

end Token

end Qualifier
