import Qualifier.Numeral
import Qualifier.Proofs.Rounding

/-!
# Numerals as a language

Which texts are numbers, and which numbers they are. The grammar of numerals is told here part by
part, each part with the number that it spells, and nothing in it scans (`Numeral.Spells`):

  `[+-]? (D+ (. D*)? | . D+) ([eE] [+-]? D+)?`

The reader takes as much as it can for each part and never goes back. It has no need to, as no part
goes on with what the next one begins with; so what it reads is spelled
(`Numeral.spells_of_ofChars?`), and what is spelled it reads (`Numeral.Spells.exists_ofChars?`).

The main statement is `Double.ofText?_spells`: a text is a number exactly if it is a numeral between
white space, and then it is the double that the exact value is rounded to.
-/

namespace Qualifier

open Decimal (ofDigits)

namespace Numeral

/-! ### The grammar -/

/-- Digits of ASCII and nothing else. -/
def IsDigits (cs : List Char) : Prop :=
  ∀ c ∈ cs, c.isDigit = true

/-- An optional sign, and whether it is the minus sign. -/
inductive Sign : List Char → Bool → Prop where
  | absent : Sign [] false
  | plus : Sign ['+'] false
  | minus : Sign ['-'] true

/-- Digits with an optional point, and the number that they spell. -/
inductive Significand : List Char → ℚ → Prop where
  /-- Digits alone, -/
  | whole {ds : List Char} (hne : ds ≠ []) (hds : IsDigits ds) : Significand ds (ofDigits ds)
  /-- digits with a point and perhaps more digits, -/
  | point {ds fs : List Char} (hne : ds ≠ []) (hds : IsDigits ds) (hfs : IsDigits fs) :
    Significand (ds ++ '.' :: fs) (ofDigits ds + ofDigits fs / 10 ^ fs.length)
  /-- or digits behind a point. -/
  | fraction {fs : List Char} (hne : fs ≠ []) (hfs : IsDigits fs) :
    Significand ('.' :: fs) (ofDigits fs / 10 ^ fs.length)

/-- An optional exponent, and the integer that it spells. -/
inductive Exponent : List Char → ℤ → Prop where
  | absent : Exponent [] 0
  | present {mark : Char} {sign ds : List Char} {negative : Bool} (hmark : mark = 'e' ∨ mark = 'E')
    (hsign : Sign sign negative) (hne : ds ≠ []) (hds : IsDigits ds) :
    Exponent (mark :: (sign ++ ds)) (if negative then -(ofDigits ds : ℤ) else ofDigits ds)

/-- A text is a numeral of a sign and a magnitude: an optional sign, a significand and an optional
exponent. -/
inductive Spells : List Char → Bool → ℚ → Prop where
  | intro {sign significand exponent : List Char} {negative : Bool} {q : ℚ} {k : ℤ}
    (hsign : Sign sign negative) (hsignificand : Significand significand q)
    (hexponent : Exponent exponent k) :
    Spells (sign ++ significand ++ exponent) negative (q * 10 ^ k)

/-! ### Significands -/

/-- The parts of a significand: the digits before the point, the point, and the digits behind it. -/
structure IsParted (whole point fraction : List Char) : Prop where
  isDigits_whole : IsDigits whole
  isDigits_fraction : IsDigits fraction
  /-- There is a digit, -/
  ne_nil : whole ++ fraction ≠ []
  /-- and if there is no point, there is none behind it. -/
  cases_point : (point = [] ∧ fraction = []) ∨ point = ['.']

theorem ofDigits_append_div (xs ys : List Char) :
    (ofDigits (xs ++ ys) / 10 ^ ys.length : ℚ) = ofDigits xs + ofDigits ys / 10 ^ ys.length := by
  rw [Decimal.ofDigits_append, Nat.cast_add, Nat.cast_mul, Nat.cast_pow, Nat.cast_ofNat, add_div,
    mul_div_cancel_right₀ _ (pow_ne_zero _ (by norm_num))]

/-- The digits of a significand count as if there was no point, and each of those behind the point
takes a power of ten away. -/
theorem significand_iff_exists {cs : List Char} {q : ℚ} :
    Significand cs q ↔ ∃ whole point fraction, IsParted whole point fraction ∧
      cs = whole ++ point ++ fraction ∧
      q = ofDigits (whole ++ fraction) / 10 ^ fraction.length := by
  constructor
  · intro h
    cases h with
    | whole hne hds =>
      exact ⟨cs, [], [], ⟨hds, List.forall_mem_nil _, by simpa using hne, .inl ⟨rfl, rfl⟩⟩, by simp,
        by simp⟩
    | @point ds fs hne hds hfs =>
      exact ⟨ds, ['.'], fs, ⟨hds, hfs, by simp [hne], .inr rfl⟩, by simp,
        (ofDigits_append_div ds fs).symm⟩
    | @fraction fs hne hfs =>
      exact ⟨[], ['.'], fs, ⟨List.forall_mem_nil _, hfs, by simpa using hne, .inr rfl⟩, by simp,
        by simp⟩
  · rintro ⟨ds, point, fs, ⟨hds, hfs, hne, ⟨rfl, rfl⟩ | rfl⟩, rfl, rfl⟩
    · rw [List.append_nil] at hne
      simpa using Significand.whole hne hds
    · obtain rfl | hds' := eq_or_ne ds []
      · simpa using Significand.fraction hne hfs
      · rw [ofDigits_append_div, List.append_assoc]
        exact Significand.point hds' hds hfs

theorem Significand.forall_mem {cs : List Char} {q : ℚ} (h : Significand cs q) :
    ∀ c ∈ cs, c.isDigit = true ∨ c = '.' := by
  cases h with
  | whole hne hds => exact fun c hc ↦ .inl (hds c hc)
  | point hne hds hfs =>
    exact List.forall_mem_append.2 ⟨fun c hc ↦ .inl (hds c hc),
      List.forall_mem_cons.2 ⟨.inr rfl, fun c hc ↦ .inl (hfs c hc)⟩⟩
  | fraction hne hfs => exact List.forall_mem_cons.2 ⟨.inr rfl, fun c hc ↦ .inl (hfs c hc)⟩

/-! ### What is read is spelled -/

theorem exists_readSign (cs : List Char) :
    ∃ sign negative rest, readSign cs = (negative, rest) ∧ Sign sign negative ∧
      cs = sign ++ rest := by
  unfold readSign
  split
  · exact ⟨_, _, _, rfl, .minus, rfl⟩
  · exact ⟨_, _, _, rfl, .plus, rfl⟩
  · exact ⟨_, _, _, rfl, .absent, rfl⟩

theorem exists_readDigits (cs : List Char) :
    ∃ ds rest, readDigits cs = (ds, rest) ∧ IsDigits ds ∧ cs = ds ++ rest :=
  ⟨_, _, rfl, fun _ ↦ isDigit_of_mem_readDigits, (append_readDigits cs).symm⟩

theorem exists_readFraction (cs : List Char) :
    ∃ point fraction rest, readFraction cs = (fraction, rest) ∧ IsDigits fraction ∧
      cs = point ++ fraction ++ rest ∧ ((point = [] ∧ fraction = []) ∨ point = ['.']) := by
  unfold readFraction
  split
  · next rest =>
    obtain ⟨ds, rest, hread, hds, rfl⟩ := exists_readDigits rest
    exact ⟨['.'], ds, rest, hread, hds, rfl, .inr rfl⟩
  · exact ⟨[], [], cs, rfl, List.forall_mem_nil _, rfl, .inl ⟨rfl, rfl⟩⟩

theorem exponent_of_readExponent? {cs : List Char} {k : ℤ}
    (h : readExponent? cs = some (k, [])) : Exponent cs k := by
  unfold readExponent? at h
  split at h
  · cases h
    exact .absent
  · next mark rest =>
    split at h
    · next hmark =>
      obtain ⟨sign, negative, rest, hsign, hspelled, rfl⟩ := exists_readSign rest
      obtain ⟨ds, rest, hdigits, hds, rfl⟩ := exists_readDigits rest
      simp only [hsign, hdigits] at h
      split at h
      · cases h
      · next hne =>
        cases h
        rw [List.append_nil]
        exact .present hmark hspelled hne hds
    · cases h

theorem toRat_sub (n : Nat) (k : ℤ) (places : Nat) :
    Decimal.toRat ⟨n, k - places⟩ = n / 10 ^ places * 10 ^ k := by
  rw [Decimal.toRat, zpow_sub₀ (by norm_num), zpow_natCast]
  ring

theorem spells_of_ofChars? {cs : List Char} {x : Numeral} (h : ofChars? cs = some x) :
    Spells cs x.negative x.magnitude.toRat := by
  obtain ⟨sign, negative, rest, hsign, hspelled, rfl⟩ := exists_readSign cs
  obtain ⟨ds, rest, hwhole, hds, rfl⟩ := exists_readDigits rest
  obtain ⟨point, fs, rest, hfraction, hfs, rfl, hpoint⟩ := exists_readFraction rest
  simp only [ofChars?, hsign, hwhole, hfraction] at h
  split at h
  · next k hexponent =>
    split at h
    · cases h
    · next hne =>
      cases h
      have hparted : IsParted ds point fs := ⟨hds, hfs, hne, hpoint⟩
      have hspells := Spells.intro hspelled (significand_iff_exists.2 ⟨_, _, _, hparted, rfl, rfl⟩)
        (exponent_of_readExponent? hexponent)
      rw [toRat_sub]
      simpa only [List.append_assoc] using hspells
  · cases h

/-! ### What is spelled is read -/

theorem readSign_append {sign rest : List Char} {negative : Bool} (h : Sign sign negative)
    (hrest : ∀ c ∈ rest.head?, c ≠ '+' ∧ c ≠ '-') : readSign (sign ++ rest) = (negative, rest) := by
  cases h with
  | plus | minus => rfl
  | absent =>
    rw [List.nil_append]
    unfold readSign
    split
    · simp at hrest
    · simp at hrest
    · rfl

theorem readDigits_append {ds rest : List Char} (hds : IsDigits ds)
    (hrest : ∀ c ∈ rest.head?, c.isDigit = false) : readDigits (ds ++ rest) = (ds, rest) := by
  rw [readDigits, List.takeWhile_append_of_pos hds, List.dropWhile_append_of_pos hds]
  cases rest with
  | nil => rw [List.takeWhile_nil, List.dropWhile_nil, List.append_nil]
  | cons c rest =>
    have hc : ¬c.isDigit = true := by simp [hrest c rfl]
    rw [List.takeWhile_cons_of_neg hc, List.dropWhile_cons_of_neg hc, List.append_nil]

theorem isDigit_ne_sign {c : Char} (h : c.isDigit = true) : c ≠ '+' ∧ c ≠ '-' := by
  constructor
  · rintro rfl
    cases h
  · rintro rfl
    cases h

theorem Exponent.head {cs : List Char} {k : ℤ} (h : Exponent cs k) :
    ∀ c ∈ cs.head?, c.isDigit = false ∧ c ≠ '.' := by
  cases h with
  | absent => simp
  | present hmark => obtain rfl | rfl := hmark <;> simp

theorem Exponent.readExponent? {cs : List Char} {k : ℤ} (h : Exponent cs k) :
    readExponent? cs = some (k, []) := by
  cases h with
  | absent => rfl
  | @present mark sign ds negative hmark hsign hne hds =>
    have hhead : ∀ c ∈ ds.head?, c ≠ '+' ∧ c ≠ '-' :=
      fun c hc ↦ isDigit_ne_sign (hds c (List.mem_of_head? hc))
    have happend : readDigits (ds ++ []) = (ds, []) := readDigits_append hds (by simp)
    rw [List.append_nil] at happend
    simp only [Numeral.readExponent?, if_pos hmark, readSign_append hsign hhead, happend,
      if_neg hne]

theorem readFraction_of_head {cs : List Char} (h : ∀ c ∈ cs.head?, c ≠ '.') :
    readFraction cs = ([], cs) := by
  unfold readFraction
  split
  · simp at h
  · rfl

section

variable {whole point fraction rest : List Char} (h : IsParted whole point fraction)
  (hrest : ∀ c ∈ rest.head?, c.isDigit = false ∧ c ≠ '.')

include h

theorem IsParted.head :
    ∀ c ∈ (whole ++ (point ++ (fraction ++ rest))).head?, c ≠ '+' ∧ c ≠ '-' := by
  obtain ⟨hwhole, -, hne, hpoint⟩ := h
  cases whole with
  | cons d ds =>
    rintro c ⟨⟩
    exact isDigit_ne_sign (hwhole d List.mem_cons_self)
  | nil =>
    obtain ⟨rfl, rfl⟩ | rfl := hpoint
    · exact absurd rfl hne
    · rintro c ⟨⟩
      decide

include hrest

theorem IsParted.readDigits_append :
    readDigits (whole ++ (point ++ (fraction ++ rest))) = (whole, point ++ (fraction ++ rest)) := by
  refine Numeral.readDigits_append h.isDigits_whole ?_
  obtain ⟨rfl, rfl⟩ | rfl := h.cases_point
  · exact fun c hc ↦ (hrest c hc).1
  · rintro c ⟨⟩
    rfl

theorem IsParted.readFraction_append :
    readFraction (point ++ (fraction ++ rest)) = (fraction, rest) := by
  obtain ⟨rfl, rfl⟩ | rfl := h.cases_point
  · exact readFraction_of_head fun c hc ↦ (hrest c hc).2
  · exact Numeral.readDigits_append h.isDigits_fraction fun c hc ↦ (hrest c hc).1

end

theorem Spells.exists_ofChars? {cs : List Char} {negative : Bool} {q : ℚ}
    (h : Spells cs negative q) :
    ∃ x, ofChars? cs = some x ∧ x.negative = negative ∧ x.magnitude.toRat = q := by
  obtain @⟨sign, significand, exponent, _, q, k, hsign, hsignificand, hexponent⟩ := h
  obtain ⟨ds, point, fs, hparted, rfl, rfl⟩ := significand_iff_exists.1 hsignificand
  refine ⟨⟨negative, ofDigits (ds ++ fs), k - fs.length⟩, ?_, rfl, toRat_sub ..⟩
  simp only [List.append_assoc, ofChars?, readSign_append hsign hparted.head,
    hparted.readDigits_append hexponent.head, hparted.readFraction_append hexponent.head,
    hexponent.readExponent?, if_neg hparted.ne_nil]

end Numeral

/-! ### Numbers -/

/-- A text is a number exactly if it spells a numeral between white space, and then it is the double
that the exact value of the numeral is rounded to. -/
theorem Double.ofText?_spells (text : String) :
    ((∃ x, Double.ofText? text = some x) ↔
        ∃ negative q, Numeral.Spells (Text.trim text.toList) negative q) ∧
      ∀ negative q, Numeral.Spells (Text.trim text.toList) negative q →
        ∃ x, Double.ofText? text = some x ∧ Double.Rounds negative q x ∧ x ≠ .nan := by
  have hread : ∀ negative q, Numeral.Spells (Text.trim text.toList) negative q →
      ∃ x, Double.ofText? text = some x ∧ Double.Rounds negative q x ∧ x ≠ .nan := by
    intro negative q h
    obtain ⟨x, hx, rfl, rfl⟩ := h.exists_ofChars?
    have hrounds := Double.rounds_ofDecimal x.negative x.magnitude
    refine ⟨x.toDouble, ?_, hrounds, hrounds.ne_nan⟩
    rw [ofText?, hx, Option.map_some]
  refine ⟨⟨?_, ?_⟩, hread⟩
  · rintro ⟨x, hx⟩
    obtain ⟨numeral, hnumeral, -⟩ := Option.map_eq_some_iff.1 hx
    exact ⟨_, _, Numeral.spells_of_ofChars? hnumeral⟩
  · rintro ⟨negative, q, h⟩
    obtain ⟨x, hx, -⟩ := hread negative q h
    exact ⟨x, hx⟩

/-- Halfway between two neighbouring doubles, this numeral is the even one of them, the double of
`2 ^ 53`. -/
theorem Double.ofText?_spells_halfway :
    Numeral.Spells (Text.trim " 9007199254740993.e+0\u2003".toList) false 9007199254740993 ∧
      Double.ofText? " 9007199254740993.e+0\u2003" =
        some (.finite false ⟨1076 * binade, by decide⟩) ∧
      Double.Rounds false 9007199254740993 (.finite false ⟨1076 * binade, by decide⟩) := by
  have hspells : Numeral.Spells (Text.trim " 9007199254740993.e+0\u2003".toList) false
      9007199254740993 := by
    have hne : "9007199254740993".toList ≠ [] := by decide
    have hdigits : Numeral.IsDigits "9007199254740993".toList := List.all_eq_true.1 (by decide)
    have hexponent : Numeral.IsDigits ['0'] := List.all_eq_true.1 (by decide)
    have hspells := Numeral.Spells.intro .absent (.point hne hdigits (List.forall_mem_nil _))
      (.present (.inl rfl) .plus (List.cons_ne_nil '0' []) hexponent)
    have htext : Text.trim " 9007199254740993.e+0\u2003".toList =
        [] ++ ("9007199254740993".toList ++ ['.']) ++ 'e' :: (['+'] ++ ['0']) := by decide +kernel
    rw [htext]
    convert hspells using 1
    simp [ofDigits, Decimal.digitValue]
  have hread : Double.ofText? " 9007199254740993.e+0\u2003" =
      some (.finite false ⟨1076 * binade, by decide⟩) := by decide +kernel
  obtain ⟨x, hx, hrounds, -⟩ := (Double.ofText?_spells _).2 _ _ hspells
  obtain rfl := Option.some.inj (hread.symm.trans hx)
  exact ⟨hspells, hread, hrounds⟩

end Qualifier
