import Qualifier.Proofs.Joining
import Qualifier.Proofs.Numerals
import Qualifier.Proofs.Outcome
import Qualifier.Proofs.PlainText

/-!
# Numerals in expressions

What becomes of a numeral in parentheses. Operands and numerals are told apart from other texts by
different rules. Digits, points and the marks of exponents are nothing but text to an expression, so
a numeral that is made of them is one operand (`Numeral.IsUnsigned.scan_eq`), and it is the number
that it spells. A sign is an operator wherever it stands: there is no way to quote it, and no
operator with one side only.

So a numeral with a signed exponent is no operand. It is cut at the sign (`Numeral.Spells.isCut`):
what stands before it ends with the mark of the exponent, which makes it a text and no number, and
counts as zero; behind it are digits.

The main statement is `Evaluator.evaluate_numeral`.
-/

namespace Qualifier

open Text (trim)

/-! ### Characters of numerals -/

namespace Numeral

/-- The text is made of what numerals have beside signs. -/
def IsUnsigned (cs : List Char) : Prop :=
  ∀ c ∈ cs, c.isDigit = true ∨ c = '.' ∨ c = 'e' ∨ c = 'E'

variable {cs : List Char} {negative : Bool} {q : ℚ}

theorem IsDigits.isUnsigned (h : IsDigits cs) : IsUnsigned cs :=
  fun c hc ↦ .inl (h c hc)

theorem Significand.isUnsigned (h : Significand cs q) : IsUnsigned cs := by
  intro c hc
  obtain hdigit | hpoint := h.forall_mem c hc
  · exact .inl hdigit
  · exact .inr (.inl hpoint)

theorem isUnsigned_mark {mark : Char} (h : mark = 'e' ∨ mark = 'E') : IsUnsigned [mark] := by
  intro c hc
  obtain rfl := List.mem_singleton.1 hc
  exact .inr (.inr h)

theorem IsUnsigned.append {cs' : List Char} (h : IsUnsigned cs) (h' : IsUnsigned cs') :
    IsUnsigned (cs ++ cs') :=
  List.forall_mem_append.2 ⟨h, h'⟩

/-- What holds of digits, of the point and of the marks holds of all. -/
theorem IsUnsigned.forall_mem {p : Char → Prop} (h : IsUnsigned cs)
    (hdigit : ∀ c : Char, c.isDigit = true → p c) (hpoint : p '.') (he : p 'e') (hE : p 'E') :
    ∀ c ∈ cs, p c := by
  intro c hc
  obtain hc | rfl | rfl | rfl := h c hc
  · exact hdigit c hc
  · exact hpoint
  · exact he
  · exact hE

theorem IsUnsigned.notMem {sign : Char} (h : IsUnsigned cs) (hsign : sign = '+' ∨ sign = '-') :
    sign ∉ cs := by
  intro hmem
  have hnot := h sign hmem
  obtain rfl | rfl := hsign
  · exact absurd hnot (by decide)
  · exact absurd hnot (by decide)

/-- A numeral in which no sign occurs is made of the rest. -/
theorem Spells.isUnsigned (h : Spells cs negative q) (hplus : '+' ∉ cs) (hminus : '-' ∉ cs) :
    IsUnsigned cs := by
  obtain ⟨hsign, hsignificand, hexponent⟩ := h
  cases hsign with
  | plus => exact absurd (by simp) hplus
  | minus => exact absurd (by simp) hminus
  | absent =>
    cases hexponent with
    | absent => simpa using hsignificand.isUnsigned
    | present hmark hsign hne hds =>
      cases hsign with
      | plus => exact absurd (by simp) hplus
      | minus => exact absurd (by simp) hminus
      | absent =>
        exact hsignificand.isUnsigned.append ((isUnsigned_mark hmark).append hds.isUnsigned)

/-! ### The sign of an exponent -/

/-- The two sides of the sign of an exponent. -/
structure IsCut (front back : List Char) : Prop where
  /-- The mark of the exponent ends what is before, -/
  mark : ∃ significand mark, (mark = 'e' ∨ mark = 'E') ∧ front = significand ++ [mark] ∧
    IsUnsigned significand
  /-- and there are digits behind. -/
  ne_nil : back ≠ []
  isDigits : IsDigits back

/-- In a numeral without a sign of its own, a sign is that of the exponent. -/
theorem Spells.isCut {front back : List Char} {sign : Char} (h : Spells cs negative q)
    (hhead : ∀ c ∈ cs.head?, c ≠ '+' ∧ c ≠ '-') (hsign : sign = '+' ∨ sign = '-')
    (hcs : cs = front ++ sign :: back) : IsCut front back := by
  have hmem : sign ∈ cs := by simp [hcs]
  obtain ⟨hsign', hsignificand, hexponent⟩ := h
  have hunsigned := hsignificand.isUnsigned
  -- the only sign that is left is where it is cut
  have hcut {significand ds : List Char} {mark sign' : Char} (hmark : mark = 'e' ∨ mark = 'E')
      (hunsigned : IsUnsigned significand) (hne : ds ≠ []) (hds : IsDigits ds)
      (heq : significand ++ mark :: sign' :: ds = front ++ sign :: back) : IsCut front back := by
    have hfront := (hunsigned.append (isUnsigned_mark hmark)).notMem hsign
    have hback := hds.isUnsigned.notMem hsign
    rw [List.append_cons, List.append_cons_inj_of_notMem hfront hback] at heq
    obtain ⟨rfl, -, rfl⟩ := heq
    exact ⟨⟨significand, mark, hmark, rfl, hunsigned⟩, hne, hds⟩
  cases hsign' with
  | plus => exact absurd rfl (hhead '+' rfl).1
  | minus => exact absurd rfl (hhead '-' rfl).2
  | absent =>
    cases hexponent with
    | absent => exact absurd (by simpa using hmem) (hunsigned.notMem hsign)
    | present hmark hsign' hne hds =>
      cases hsign' with
      | plus => exact hcut hmark hunsigned hne hds hcs
      | minus => exact hcut hmark hunsigned hne hds hcs
      | absent =>
        have hall := hunsigned.append ((isUnsigned_mark hmark).append hds.isUnsigned)
        exact absurd hmem (hall.notMem hsign)

theorem Significand.ne_nil (h : Significand cs q) : cs ≠ [] := by
  cases h with
  | whole hne => exact hne
  | point | fraction => simp

/-- A numeral ends with a digit or a point. -/
theorem Spells.getLast? (h : Spells cs negative q) :
    ∀ c ∈ cs.getLast?, c.isDigit = true ∨ c = '.' := by
  intro c hc
  obtain ⟨-, hsignificand, hexponent⟩ := h
  cases hexponent with
  | absent =>
    rw [List.append_nil, List.getLast?_append_of_ne_nil _ hsignificand.ne_nil] at hc
    exact hsignificand.forall_mem c (List.mem_of_getLast? hc)
  | present hmark hsign hne hds =>
    rw [← List.cons_append, ← List.append_assoc, List.getLast?_append_of_ne_nil _ hne] at hc
    exact .inl (hds c (List.mem_of_getLast? hc))

end Numeral

namespace Double

open Numeral (IsDigits)

variable {text : String}

/-- What stands before the sign of an exponent is no number. -/
theorem ofText?_of_mark {significand : List Char} {mark : Char} (hmark : mark = 'e' ∨ mark = 'E')
    (htext : trim text.toList = significand ++ [mark]) : ofText? text = none := by
  rw [ofText?, htext, Option.map_eq_none_iff]
  by_contra hsome
  obtain ⟨numeral, hnumeral⟩ := Option.ne_none_iff_exists'.1 hsome
  have hlast := (Numeral.spells_of_ofChars? hnumeral).getLast? mark (by simp)
  obtain rfl | rfl := hmark
  · exact absurd hlast (by decide)
  · exact absurd hlast (by decide)

theorem exists_ofText?_of_isDigits (h : IsDigits (trim text.toList))
    (hne : trim text.toList ≠ []) : ∃ x, ofText? text = some x := by
  have hspells := Numeral.Spells.intro .absent (.whole hne h) .absent
  rw [List.nil_append, List.append_nil] at hspells
  obtain ⟨numeral, hnumeral, -⟩ := hspells.exists_ofChars?
  exact ⟨numeral.toDouble, by rw [ofText?, hnumeral, Option.map_some]⟩

end Double

/-! ### Operands -/

theorem Token.isPlain_of_isDigit {c : Char} (h : c.isDigit = true) : isPlain c = true := by
  have hblank : isBlank c = false := by
    rw [← Bool.not_eq_true]
    intro hblank
    have hspace := Text.isSpace_of_isDigit h
    rw [Lexeme.isSpace_of_isBlank hblank] at hspace
    cases hspace
  have hreserved : isReserved c = false := by
    rw [← Bool.not_eq_true]
    intro hreserved
    have hall : "()*/+-=!<>&|".toList.all (fun c ↦ !c.isDigit) = true := by decide
    have hnot := List.all_eq_true.1 hall c (List.contains_iff_mem.1 hreserved)
    rw [h] at hnot
    cases hnot
  rw [isPlain, hblank, hreserved]
  rfl

/-- A text is plain if its characters are and none of them is the first of `as`. -/
theorem isPlainText_of_forall_mem {text : List Char}
    (h : ∀ c ∈ text, Token.isPlain c = true ∧ c ≠ 'a') : IsPlainText text where
  sign sign hsign hoccurs := by
    have hall : Token.signs.all (fun sign ↦ sign.toList.any fun c ↦ !Token.isPlain c) = true := by
      decide
    obtain ⟨c, hc, hnot⟩ := List.any_eq_true.1 (List.all_eq_true.1 hall sign hsign)
    rw [(h c (hoccurs.subset hc)).1] at hnot
    cases hnot
  naming before after htext _ := (h 'a' (by simp [htext])).2 rfl

namespace Numeral.IsUnsigned

variable {text : String} (h : IsUnsigned text.toList)

include h

theorem trim_eq : trim text.toList = text.toList :=
  Text.trim_eq_self (h.forall_mem (fun _ ↦ Text.isSpace_of_isDigit) rfl rfl rfl)

theorem isPlainText : IsPlainText text.toList := by
  refine isPlainText_of_forall_mem
    (h.forall_mem (fun c hc ↦ ⟨Token.isPlain_of_isDigit hc, ?_⟩) (by decide) (by decide)
      (by decide))
  rintro rfl
  cases hc

/-- Without signs, a numeral is one operand, -/
theorem scan_eq (hne : text ≠ "") :
    Lexeme.scan text = [.operand text ⟨0, text.utf8ByteSize⟩] :=
  Lexeme.scan_eq_of_trim_eq_self h.isPlainText h.trim_eq hne

/-- and the operand is a literal. -/
theorem ofText_eq : Operand.ofText text = .literal text := by
  have hhead : ∀ c ∈ text.toList, c ≠ '$' ∧ c ≠ '@' := by
    refine h.forall_mem (fun c hc ↦ ⟨?_, ?_⟩) (by decide) (by decide) (by decide)
    · rintro rfl
      cases hc
    · rintro rfl
      cases hc
  refine Operand.ofText_of_head? ?_ ?_
  · exact fun hpath ↦ (hhead '$' (List.mem_of_head? hpath)).1 rfl
  · exact fun hcall ↦ (hhead '@' (List.mem_of_head? hcall)).2 rfl

end Numeral.IsUnsigned

/-- A literal counts as the number that it spells, and as zero if it spells none. -/
theorem Value.asNumber_ofLiteral (text : String) :
    (ofLiteral text).asNumber = (Double.ofText? text).getD (.zero false) := by
  cases h : Double.ofText? text with
  | none => simp [ofLiteral, asNumber, h]
  | some x => simp [ofLiteral, asNumber, h]

namespace Numeral.IsCut

variable {front back : String} (h : IsCut front.toList back.toList)

include h

theorem isUnsigned_front : IsUnsigned front.toList := by
  obtain ⟨significand, mark, hmark, hfront, hunsigned⟩ := h.mark
  rw [hfront]
  exact hunsigned.append (isUnsigned_mark hmark)

theorem front_ne : front ≠ "" := by
  rintro rfl
  obtain ⟨significand, mark, -, hfront, -⟩ := h.mark
  simp at hfront

theorem back_ne : back ≠ "" := by
  rintro rfl
  exact h.ne_nil rfl

theorem ofText?_front : Double.ofText? front = none := by
  obtain ⟨significand, mark, hmark, hfront, -⟩ := h.mark
  exact Double.ofText?_of_mark hmark (h.isUnsigned_front.trim_eq.trans hfront)

theorem exists_ofText?_back : ∃ y, Double.ofText? back = some y := by
  have htrim := h.isDigits.isUnsigned.trim_eq
  refine Double.exists_ofText?_of_isDigits ?_ ?_
  · rw [htrim]
    exact h.isDigits
  · rw [htrim]
    exact h.ne_nil

/-- Between the sides of the sign stands an operator, for which the first side counts as zero. -/
theorem result?_add {y : Double} (hy : Double.ofText? back = some y) :
    (Operator.arithmetic .add).result? (.ofLiteral front) (.ofLiteral back) =
      some (.number (.zero false + y)) := by
  rw [Operator.result?, Operator.apply_arithmetic, Arithmetic.apply, Value.asNumber_ofLiteral,
    Value.asNumber_ofLiteral, h.ofText?_front, hy]
  rfl

theorem result?_subtract {y : Double} (hy : Double.ofText? back = some y) :
    (Operator.arithmetic .subtract).result? (.ofLiteral front) (.ofLiteral back) =
      some (.number (.zero false - y)) := by
  rw [Operator.result?, Operator.apply_arithmetic, Arithmetic.apply, Value.asNumber_ofLiteral,
    Value.asNumber_ofLiteral, h.ofText?_front, hy]
  rfl

end Numeral.IsCut

/-! ### Groups -/

/-- A source in parentheses has the lexemes of the source, one further on, between two more. -/
theorem Lexeme.scan_group (source : String) :
    ∃ a b, scan ("(" ++ source ++ ")") =
      .opening a :: ((scan source).map (·.shift 1) ++ [.closing b]) := by
  have hsource : ("(" ++ source ++ ")").toList =
      [] ++ Delimiter.opening.char :: (source.toList ++ Delimiter.closing.char :: []) := by
    simp [Delimiter.char]
  rw [scan, hsource, assemble_scan_append, assemble_scan_append, assemble_scan_nil,
    Text.byteLength_nil, assemble_scan_nil, assemble_eq_map_shift]
  exact ⟨_, _, rfl⟩

theorem Tree.resolve_literal {σ : Type} (env : Environment σ) {text : String} (span : Span)
    (world : σ) (h : Operand.ofText text = .literal text) :
    (leaf ⟨text, span⟩).resolve env world =
      (.leaf ⟨.ofLiteral text, some text, span.start⟩, world) := by
  rw [resolve, h]
  rfl

namespace Evaluator

variable {σ : Type} {env : Environment σ} {limit : Nat} {world : σ} {source : String}

/-- In parentheses, a source with a tree that sets no labels amounts to the value of the tree. -/
theorem evaluate_group {tree : Tree Written} (hbound : tree.WellBound)
    (hdepth : tree.depth ≤ limit) (hlexemes : (Lexeme.scan source).map (·.shift 1) = tree.lexemes)
    {known : Tree Known} {world' : σ} (hknown : tree.resolve env world = (known, world'))
    {value : Value} (hvalue : known.value? = some value) (hnames : known.names = []) :
    let report := (((ofSource ("(" ++ source ++ ")")).limitedTo (limit + 1)).evaluate env world).1
    report.answer = .ok ⟨value, "(" ++ source ++ ")"⟩ ∧ report.world = world' := by
  intro report
  have hreport : report = Expression.evaluate env (limit + 1) (Lexeme.scan ("(" ++ source ++ ")"))
      ("(" ++ source ++ ")") world := evaluate_fst ..
  obtain ⟨a, b, hscan⟩ := Lexeme.scan_group source
  have hgroup : Lexeme.scan ("(" ++ source ++ ")") = (Tree.group a b tree).lexemes := by
    rw [hscan, hlexemes]
    rfl
  have hwhole : (Tree.group a b tree).WellBound := hbound
  have hlimit : (Tree.group a b tree).depth ≤ limit + 1 := Nat.succ_le_succ hdepth
  have hresolve : (Tree.group a b tree).resolve env world = (.group a b known, world') := by
    rw [Tree.resolve, hknown]
  have hlabel : (Tree.group a b known).names = [] := hnames
  have hfaults : ((Tree.group a b tree).resolve env world).1.faults = [] := by
    rw [hresolve]
    exact (Tree.value?_isSome_iff _).1 (Option.isSome_of_eq_some hvalue)
  obtain ⟨value', trail, hvalue', heval⟩ :=
    Expression.evaluate_lexemes env hwhole hlimit ("(" ++ source ++ ")") world hfaults
  rw [hresolve] at hvalue' heval
  obtain rfl : value = value' := Option.some.inj (hvalue.symm.trans hvalue')
  rw [hreport, hgroup, heval, hlabel]
  exact ⟨rfl, rfl⟩

/-- A literal in parentheses is a number if it spells one. -/
theorem evaluate_group_of_isUnsigned (h : Numeral.IsUnsigned source.toList) {x : Double}
    (hread : Double.ofText? source = some x) :
    let report := (((ofSource ("(" ++ source ++ ")")).limitedTo (limit + 1)).evaluate env world).1
    report.answer = .ok ⟨.number x, "(" ++ source ++ ")"⟩ ∧ report.world = world := by
  have hne : source ≠ "" := by
    rintro rfl
    cases hread
  have hlexemes : (Lexeme.scan source).map (·.shift 1) =
      (Tree.leaf ⟨source, (Span.shift 1 ⟨0, source.utf8ByteSize⟩)⟩).lexemes := by
    rw [h.scan_eq hne]
    rfl
  have hknown := Tree.resolve_literal env (Span.shift 1 ⟨0, source.utf8ByteSize⟩) world h.ofText_eq
  have hvalue : Value.ofLiteral source = .number x := by rw [Value.ofLiteral, hread]
  rw [hvalue] at hknown
  have hbound : (Tree.leaf (⟨source, Span.shift 1 ⟨0, source.utf8ByteSize⟩⟩ : Written)).WellBound :=
    trivial
  exact evaluate_group hbound (Nat.zero_le _) hlexemes hknown rfl rfl

/-- A numeral in parentheses that is cut by a sign is an operation on the two sides. -/
theorem evaluate_group_of_isCut {front back : String}
    (h : Numeral.IsCut front.toList back.toList) (op : Arithmetic) {value : Value}
    (hvalue : (Operator.arithmetic op).result? (.ofLiteral front) (.ofLiteral back) = some value)
    (hsource : source = front ++ String.singleton (Delimiter.arithmetic op).char ++ back) :
    let report := (((ofSource ("(" ++ source ++ ")")).limitedTo (limit + 1)).evaluate env world).1
    report.answer = .ok ⟨value, "(" ++ source ++ ")"⟩ ∧ report.world = world := by
  have hscan := Lexeme.scan_append_delimiter front back (.arithmetic op)
  rw [← hsource, h.isUnsigned_front.scan_eq h.front_ne,
    h.isDigits.isUnsigned.scan_eq h.back_ne] at hscan
  obtain ⟨a, b, c, hlexemes⟩ : ∃ a b c, (Lexeme.scan source).map (·.shift 1) =
      (Tree.node (.arithmetic op) b (.leaf ⟨front, a⟩) (.leaf ⟨back, c⟩)).lexemes := by
    rw [hscan]
    exact ⟨_, _, _, rfl⟩
  have hknown : (Tree.node (.arithmetic op) b (.leaf ⟨front, a⟩) (.leaf ⟨back, c⟩)).resolve env
      world = (.node (.arithmetic op) b (.leaf ⟨.ofLiteral front, some front, a.start⟩)
        (.leaf ⟨.ofLiteral back, some back, c.start⟩), world) := by
    rw [Tree.resolve, Tree.resolve_literal env a world h.isUnsigned_front.ofText_eq]
    dsimp only
    rw [Tree.resolve_literal env c world h.isDigits.isUnsigned.ofText_eq]
  have hbound : (Tree.node (.arithmetic op) b (.leaf ⟨front, a⟩)
      (.leaf (⟨back, c⟩ : Written))).WellBound := ⟨trivial, trivial, Nat.zero_le _, Nat.zero_le _⟩
  exact evaluate_group hbound (Nat.zero_le _) hlexemes hknown hvalue rfl

/-- A numeral that begins with a digit or a point and has no white space around it is a number in
parentheses, the one that it spells, if no sign occurs in it. If one does, it is the sign of the
exponent, and what is added to zero or taken from it is the number that is spelled behind it. -/
theorem evaluate_numeral {text : String} {x : Double}
    (hhead : ∀ c ∈ text.toList.head?, c.isDigit = true ∨ c = '.')
    (htrim : trim text.toList = text.toList) (hread : Double.ofText? text = some x)
    {σ : Type} (env : Environment σ) (limit : Nat) (world : σ) :
    let source := "(" ++ text ++ ")"
    let report := (((ofSource source).limitedTo (limit + 1)).evaluate env world).1
    ('+' ∉ text.toList → '-' ∉ text.toList →
        report.answer = .ok ⟨.number x, source⟩ ∧ report.world = world) ∧
      (∀ front back, text = front ++ "+" ++ back → ∃ y, Double.ofText? back = some y ∧
        report.answer = .ok ⟨.number (.zero false + y), source⟩ ∧ report.world = world) ∧
      ∀ front back, text = front ++ "-" ++ back → ∃ y, Double.ofText? back = some y ∧
        report.answer = .ok ⟨.number (.zero false - y), source⟩ ∧ report.world = world := by
  intro source report
  obtain ⟨numeral, hnumeral, -⟩ := Option.map_eq_some_iff.1 hread
  have hspells := Numeral.spells_of_ofChars? hnumeral
  rw [htrim] at hspells
  have hunsigned : ∀ c ∈ text.toList.head?, c ≠ '+' ∧ c ≠ '-' := by
    intro c hc
    obtain hdigit | rfl := hhead c hc
    · exact Numeral.isDigit_ne_sign hdigit
    · decide
  refine ⟨fun hplus hminus ↦ evaluate_group_of_isUnsigned (hspells.isUnsigned hplus hminus) hread,
    fun front back htext ↦ ?_, fun front back htext ↦ ?_⟩
  · have hcut : Numeral.IsCut front.toList back.toList :=
      hspells.isCut hunsigned (.inl rfl) (by simp [htext])
    obtain ⟨y, hy⟩ := hcut.exists_ofText?_back
    exact ⟨y, hy, evaluate_group_of_isCut hcut .add (hcut.result?_add hy) htext⟩
  · have hcut : Numeral.IsCut front.toList back.toList :=
      hspells.isCut hunsigned (.inr rfl) (by simp [htext])
    obtain ⟨y, hy⟩ := hcut.exists_ofText?_back
    exact ⟨y, hy, evaluate_group_of_isCut hcut .subtract (hcut.result?_subtract hy) htext⟩

/-- In parentheses `15.E2` is the number that it spells, and `1e-3` is zero less three. -/
theorem evaluate_numeral_of_mark :
    let env : Environment Unit := ⟨fun _ ↦ none, fun _ ↦ none⟩
    (Qualifier.evaluate "(15.E2)" env ()).answer =
        .ok ⟨.number (.finite false ⟨0x4097700000000000, by decide⟩), "(15.E2)"⟩ ∧
      (Qualifier.evaluate "(1e-3)" env ()).answer =
        .ok ⟨.number (.finite true ⟨0x4008000000000000, by decide⟩), "(1e-3)"⟩ := by
  intro env
  have hread : Double.ofText? "15.E2" = some (.finite false ⟨0x4097700000000000, by decide⟩) := by
    decide +kernel
  have hread' : Double.ofText? "1e-3" = some (.finite false ⟨0x3F50624DD2F1A9FC, by decide⟩) := by
    decide +kernel
  have hthree : Double.ofText? "3" = some (.finite false ⟨0x4008000000000000, by decide⟩) := by
    decide +kernel
  have hnegative : Double.zero false - .finite false ⟨0x4008000000000000, by decide⟩ =
      .finite true ⟨0x4008000000000000, by decide⟩ := by
    decide +kernel
  obtain ⟨hnumber, -, -⟩ := evaluate_numeral (by simp) (by decide) hread env 63 ()
  obtain ⟨-, -, hcut⟩ := evaluate_numeral (by simp) (by decide) hread' env 63 ()
  obtain ⟨y, hy, hanswer, -⟩ := hcut "1e" "3" (by decide)
  obtain rfl := Option.some.inj (hthree.symm.trans hy)
  rw [hnegative] at hanswer
  exact ⟨(hnumber (by decide) (by decide)).1, hanswer⟩

/-- A sign in the exponent is an operator, so `(1e+5)` is five. -/
theorem evaluate_numeral_ne_of_signed_exponent :
    let env : Environment Unit := ⟨fun _ ↦ none, fun _ ↦ none⟩
    let x : Double := .finite false ⟨0x40F86A0000000000, by decide⟩
    (∀ c ∈ "1e+5".toList.head?, c.isDigit = true ∨ c = '.') ∧
      trim "1e+5".toList = "1e+5".toList ∧ Double.ofText? "1e+5" = some x ∧
      (Qualifier.evaluate "(1e+5)" env ()).answer =
        .ok ⟨.number (.finite false ⟨0x4014000000000000, by decide⟩), "(1e+5)"⟩ ∧
      ∀ label, (Qualifier.evaluate "(1e+5)" env ()).answer ≠ .ok ⟨.number x, label⟩ := by
  intro env x
  have hscan : Lexeme.scan "(1e+5)" = [.opening ⟨0, 1⟩, .operand "1e" ⟨1, 3⟩,
      .operator (.arithmetic .add) ⟨3, 4⟩, .operand "5" ⟨4, 5⟩, .closing ⟨5, 6⟩] := by cbv
  have hanswer : (Qualifier.evaluate "(1e+5)" env ()).answer =
      .ok ⟨.number (.finite false ⟨0x4014000000000000, by decide⟩), "(1e+5)"⟩ := by
    show (((ofSource "(1e+5)").evaluate env ()).1).answer = _
    rw [evaluate_fst]
    show (Expression.evaluate env defaultLimit (Lexeme.scan "(1e+5)") "(1e+5)" ()).answer = _
    rw [hscan, Expression.evaluate, Expression.value_eq_pass]
    decide +kernel
  refine ⟨by simp, by decide, by decide +kernel, hanswer, fun label hlabel ↦ ?_⟩
  rw [hanswer] at hlabel
  simp [x] at hlabel

end Evaluator

end Qualifier
