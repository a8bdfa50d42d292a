import Mathlib.Data.List.Find
import Qualifier.Lexeme

/-!
# Joining sources

What becomes of the lexemes of two texts when the texts are joined. Between them stands a
`Delimiter`: a parenthesis, or a sign that no other symbol goes on with. It ends every run before
it, so no token reaches across it (`Token.scan_append`), and as it is a lexeme of its own no operand
does (`Lexeme.assemble_append`): the lexemes of the whole are those of the first text, the
delimiter, and those of the second text, wherever that is read (`Lexeme.assemble_scan_append`).

A text that is read further on has the same lexemes further on (`Lexeme.assemble_shift`), so the
lexemes of the whole are determined by those of the parts. The main statement is
`Lexeme.scan_append_delimiter`.
-/

namespace Qualifier

/-- A character that is a lexeme wherever it stands. -/
inductive Delimiter where
  /-- The opening parenthesis. -/
  | opening
  /-- The closing parenthesis. -/
  | closing
  /-- An operator on numbers. -/
  | arithmetic (op : Arithmetic)
deriving DecidableEq

namespace Delimiter

/-- The character itself. -/
def char : Delimiter → Char
  | .opening => '('
  | .closing => ')'
  | .arithmetic .multiply => '*'
  | .arithmetic .divide => '/'
  | .arithmetic .add => '+'
  | .arithmetic .subtract => '-'

/-- The token that it makes. -/
def token : Delimiter → Token
  | .opening => .opening
  | .closing => .closing
  | .arithmetic op => .operator (.arithmetic op)

/-- The lexeme that it makes. -/
def lexeme (delimiter : Delimiter) (span : Span) : Lexeme :=
  match delimiter with
  | .opening => .opening span
  | .closing => .closing span
  | .arithmetic op => .operator (.arithmetic op) span

variable (d : Delimiter)

theorem spelling_token : d.token.spelling = [d.char] := by
  rcases d with _ | _ | op <;> (try cases op) <;> rfl

/-- A delimiter ends runs of blanks, -/
theorem isBlank_char : Token.isBlank d.char = false := by
  rcases d with _ | _ | op <;> (try cases op) <;> decide

/-- runs of text, -/
theorem isPlain_char : Token.isPlain d.char = false := by
  rcases d with _ | _ | op <;> (try cases op) <;> decide

/-- and symbols: none goes on with it. -/
theorem not_mem_tail_symbol {op : Operator} (h : op ∈ Operator.symbolic) :
    d.char ∉ op.symbol.toList.tail := by
  revert op
  rcases d with _ | _ | op <;> (try cases op) <;> decide

end Delimiter

/-! ### Tokens -/

/-- A text without a character cannot begin before the character and end behind it. -/
theorem isPrefixOf_append_cons {p : List Char} {c : Char} (h : c ∉ p) (s t : List Char) :
    p.isPrefixOf (s ++ c :: t) = p.isPrefixOf s := by
  induction p generalizing s with
  | nil => rfl
  | cons x p ih =>
    obtain ⟨hx, hp⟩ := not_or.1 (List.mem_cons.not.1 h)
    cases s with
    | nil => simp [List.isPrefixOf, Ne.symm hx]
    | cons y s => rw [List.cons_append, List.isPrefixOf, List.isPrefixOf, ih hp]

namespace Token

theorem scan_nil : scan [] = [] := by
  rw [scan]

theorem scan_cons {c : Char} {rest after : List Char} {token : Token} (h : first c rest = token)
    (hafter : (c :: rest).drop token.spelling.length = after) :
    scan (c :: rest) = token :: scan after := by
  rw [scan, h, hafter]

/-- A symbol by itself is one token. -/
theorem scan_symbol (op : Operator) (h : op ≠ .naming) :
    scan op.symbol.toList = [.operator op] := by
  rcases op with op | op | op | _
  · cases op <;> exact (scan_cons rfl rfl).trans (congrArg _ scan_nil)
  · cases op <;> exact (scan_cons rfl rfl).trans (congrArg _ scan_nil)
  · cases op <;> exact (scan_cons rfl rfl).trans (congrArg _ scan_nil)
  · exact absurd rfl h

variable (d : Delimiter)

theorem leadingOperator?_append (c : Char) (rest t : List Char) :
    leadingOperator? (c :: (rest ++ d.char :: t)) = leadingOperator? (c :: rest) := by
  refine List.find?_congr fun op hop ↦ ?_
  have htail := d.not_mem_tail_symbol hop
  cases hsymbol : op.symbol.toList with
  | nil => rfl
  | cons x p =>
    rw [hsymbol, List.tail_cons] at htail
    rw [List.isPrefixOf, List.isPrefixOf, isPrefixOf_append_cons htail]

theorem takeWhile_append {p : Char → Bool} (h : p d.char = false) (s t : List Char) :
    (s ++ d.char :: t).takeWhile p = s.takeWhile p := by
  rw [List.takeWhile_append, List.takeWhile_cons_of_neg (by simp [h]), List.append_nil]
  split
  · next hlength => exact ((List.takeWhile_prefix p).eq_of_length hlength).symm
  · rfl

/-- What begins before a delimiter does not see it. -/
theorem first_append (c : Char) (rest t : List Char) :
    first c (rest ++ d.char :: t) = first c rest := by
  rw [first, first, leadingOperator?_append, takeWhile_append d d.isBlank_char,
    takeWhile_append d d.isPlain_char]

theorem first_char (t : List Char) : first d.char t = d.token := by
  rcases d with _ | _ | op <;> (try cases op) <;> rfl

theorem scan_char (t : List Char) : scan (d.char :: t) = d.token :: scan t := by
  refine scan_cons (first_char d t) ?_
  rw [d.spelling_token]
  rfl

/-- No token reaches across a delimiter. -/
theorem scan_append (s t : List Char) :
    scan (s ++ d.char :: t) = scan s ++ d.token :: scan t := by
  fun_induction scan s with
  | case1 => exact scan_char d t
  | case2 c rest ih =>
    have hlength := (spelling_first_isPrefix c rest).length_le
    rw [List.cons_append, scan, first_append, ← List.cons_append,
      List.drop_append_of_le_length hlength, ih, List.cons_append]

end Token

/-! ### Lexemes -/

namespace Lexeme

/-- A delimiter ends the operand before it, and nothing before it matters behind it. -/
theorem assemble_append (d : Delimiter) (offset : Nat) (afterBlank : Bool)
    (stretch : Option Stretch) (tokens rest : List Token) :
    assemble offset afterBlank stretch (tokens ++ d.token :: rest) =
      assemble offset afterBlank stretch tokens ++
        d.lexeme ⟨offset + Text.byteLength (tokens.flatMap Token.spelling),
          offset + Text.byteLength (tokens.flatMap Token.spelling) + 1⟩ ::
        assemble (offset + Text.byteLength (tokens.flatMap Token.spelling) + 1) false none
          rest := by
  induction tokens generalizing offset afterBlank stretch with
  | nil =>
    rw [List.nil_append, List.flatMap_nil, Text.byteLength_nil, Nat.add_zero]
    rcases d with _ | _ | op <;> (try cases op) <;> rfl
  | cons token tokens ih =>
    have hblank : startsBlank (tokens ++ d.token :: rest) = startsBlank tokens := by
      cases tokens with
      | nil => rcases d with _ | _ | op <;> rfl
      | cons token => cases token <;> rfl
    rw [List.cons_append, List.flatMap_cons, Text.byteLength_append, ← Nat.add_assoc]
    cases token with
    | blank run => exact ih ..
    | text run =>
      simp only [assemble, hblank, ih]
      split
      · rw [List.append_assoc, List.cons_append]
      · rfl
    | operator | opening | closing =>
      simp only [assemble, ih]
      rw [List.append_assoc, List.cons_append]

theorem assemble_scan_nil (offset : Nat) (afterBlank : Bool) :
    assemble offset afterBlank none (Token.scan []) = [] := by
  rw [Token.scan_nil]
  rfl

/-- The lexemes of two texts with a delimiter between them, read from an offset on. -/
theorem assemble_scan_append (d : Delimiter) (offset : Nat) (afterBlank : Bool)
    (stretch : Option Stretch) (s t : List Char) :
    assemble offset afterBlank stretch (Token.scan (s ++ d.char :: t)) =
      assemble offset afterBlank stretch (Token.scan s) ++
        d.lexeme ⟨offset + Text.byteLength s, offset + Text.byteLength s + 1⟩ ::
        assemble (offset + Text.byteLength s + 1) false none (Token.scan t) := by
  rw [Token.scan_append, assemble_append, Token.scan_spelling]

end Lexeme

/-! ### Places -/

/-- The range that starts further on. -/
def Span.shift (distance : Nat) (span : Span) : Span :=
  ⟨span.start + distance, span.stop + distance⟩

namespace Lexeme

/-- The lexeme that stands further on. -/
def shift (distance : Nat) : Lexeme → Lexeme
  | .operand text span => .operand text (span.shift distance)
  | .operator op span => .operator op (span.shift distance)
  | .opening span => .opening (span.shift distance)
  | .closing span => .closing (span.shift distance)

/-- The stretch that starts further on. -/
def Stretch.shift (distance : Nat) (s : Stretch) : Stretch :=
  { s with start := s.start + distance }

namespace Stretch

theorem finish_shift (distance : Nat) (stretch : Option Stretch) :
    finish (stretch.map (·.shift distance)) = (finish stretch).map (·.shift distance) := by
  cases stretch with
  | none => rfl
  | some s =>
    by_cases h : Text.trim s.text = []
    · have h' : Text.trim (s.shift distance).text = [] := h
      rw [Option.map_some, finish, finish, if_pos h, if_pos h', List.map_nil]
    · have h' : Text.trim (s.shift distance).text ≠ [] := h
      rw [Option.map_some, finish, finish, if_neg h, if_neg h', List.map_singleton, Lexeme.shift,
        Span.shift, Nat.add_right_comm]
      rfl

theorem extend_shift (distance : Nat) (stretch : Option Stretch) (offset : Nat)
    (run : List Char) :
    extend (stretch.map (·.shift distance)) (offset + distance) run =
      (extend stretch offset run).shift distance := by
  cases stretch <;> rfl

end Stretch

/-- Tokens that are read further on make the same lexemes further on. -/
theorem assemble_shift (distance offset : Nat) (afterBlank : Bool) (stretch : Option Stretch)
    (tokens : List Token) :
    assemble (offset + distance) afterBlank (stretch.map (·.shift distance)) tokens =
      (assemble offset afterBlank stretch tokens).map (·.shift distance) := by
  induction tokens generalizing offset afterBlank stretch with
  | nil => exact Stretch.finish_shift distance stretch
  | cons token tokens ih =>
    have hstop : offset + distance + Text.byteLength token.spelling =
        offset + Text.byteLength token.spelling + distance := Nat.add_right_comm ..
    have hnone (afterBlank : Bool) := ih (offset + Text.byteLength token.spelling) afterBlank none
    rw [Option.map_none] at hnone
    cases token with
    | blank run =>
      have hskip : (stretch.map (·.shift distance)).map (·.skip run) =
          (stretch.map (·.skip run)).map (·.shift distance) := by
        cases stretch <;> rfl
      simp only [assemble, hstop, hskip, ih]
    | text run =>
      simp only [assemble, hstop]
      split
      · rw [hnone, Stretch.finish_shift, List.map_append]
        rfl
      · rw [Stretch.extend_shift, ← Option.map_some, ih]
    | operator | opening | closing =>
      simp only [assemble, hstop, hnone, Stretch.finish_shift, List.map_append]
      rfl

/-- Where they are read from does not matter but for the places. -/
theorem assemble_eq_map_shift (distance : Nat) (tokens : List Token) :
    assemble distance false none tokens =
      (assemble 0 false none tokens).map (·.shift distance) := by
  have h := assemble_shift distance 0 false none tokens
  rwa [Nat.zero_add] at h

/-- The lexemes of two sources with a delimiter between them are those of the first, the delimiter,
and those of the second, moved behind it. -/
theorem scan_append_delimiter (s t : String) (d : Delimiter) :
    scan (s ++ String.singleton d.char ++ t) =
      scan s ++ d.lexeme ⟨s.utf8ByteSize, s.utf8ByteSize + 1⟩ ::
        (scan t).map (·.shift (s.utf8ByteSize + 1)) := by
  have hsource : (s ++ String.singleton d.char ++ t).toList = s.toList ++ d.char :: t.toList := by
    simp
  rw [scan, hsource, assemble_scan_append, Text.byteLength_toList, Nat.zero_add]
  exact congrArg (scan s ++ d.lexeme _ :: ·) (assemble_eq_map_shift _ _)

end Lexeme

end Qualifier
