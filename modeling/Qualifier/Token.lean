import Qualifier.Operator

/-!
# Tokens

The pieces into which a source falls at first sight, each the longest that its first characters
allow: operators, parentheses, runs of text and runs of blanks.

A character that neither is blank nor takes part in any symbol is *plain*, and plain characters
make runs. One of `=`, `!`, `&`, `|` that begins no operator is a text of its own and joins no
run. The word `as` is text at this stage; whether it is an operator depends on its neighbours.

Tokens carry their spelling and no positions, so cutting a source into tokens is a matter of texts
alone: `scan_spelling` states that nothing is lost.
-/

namespace Qualifier

/-- A piece of a source. -/
inductive Token where
  /-- An operator written with symbols. -/
  | operator (op : Operator)
  /-- An opening parenthesis. -/
  | opening
  /-- A closing parenthesis. -/
  | closing
  /-- A run of plain characters, or a character that begins an operator and makes none. -/
  | text (run : List Char)
  /-- A run of blanks. -/
  | blank (run : List Char)
deriving DecidableEq

namespace Token

/-- Whether a character separates lexemes without being part of one: space, tab, carriage return,
line feed or form feed. -/
def isBlank (c : Char) : Bool :=
  c = ' ' || c = '\t' || c = '\r' || c = '\n' || c = '\x0c'

/-- Whether a character takes part in a symbol. -/
def isReserved (c : Char) : Bool :=
  "()*/+-=!<>&|".toList.contains c

/-- Whether a character can take part in a run of text. -/
def isPlain (c : Char) : Bool :=
  !isBlank c && !isReserved c

/-- The characters that a token stands for. -/
def spelling : Token → List Char
  | .operator op => op.symbol.toList
  | .opening => ['(']
  | .closing => [')']
  | .text run | .blank run => run

/-- The operator with the longest spelling that begins a text. -/
def leadingOperator? (cs : List Char) : Option Operator :=
  Operator.symbolic.find? fun op ↦ op.symbol.toList.isPrefixOf cs

/-- The token that begins a text, given by its first character and the rest. -/
def first (c : Char) (rest : List Char) : Token :=
  match leadingOperator? (c :: rest) with
  | some op => .operator op
  | none =>
    if c = '(' then .opening
    else if c = ')' then .closing
    else if isBlank c then .blank (c :: rest.takeWhile isBlank)
    else if isPlain c then .text (c :: rest.takeWhile isPlain)
    else .text [c]

theorem symbol_prefix_of_leadingOperator? {cs : List Char} {op : Operator}
    (h : leadingOperator? cs = some op) : op.symbol.toList <+: cs := by
  unfold leadingOperator? at h
  have hop := List.find?_some h
  exact List.isPrefixOf_iff_prefix.1 hop

theorem spelling_first_isPrefix (c : Char) (rest : List Char) :
    (first c rest).spelling <+: c :: rest := by
  unfold first
  split
  · next op h => exact symbol_prefix_of_leadingOperator? h
  · split
    · next h => exact ⟨rest, by simp [spelling, h]⟩
    split
    · next h => exact ⟨rest, by simp [spelling, h]⟩
    split
    · exact List.cons_prefix_cons.2 ⟨rfl, List.takeWhile_prefix _⟩
    split
    · exact List.cons_prefix_cons.2 ⟨rfl, List.takeWhile_prefix _⟩
    · exact ⟨rest, rfl⟩

theorem spelling_first_ne_nil (c : Char) (rest : List Char) : (first c rest).spelling ≠ [] := by
  unfold first
  split
  · next op _ => rcases op with op | op | op | _ <;> (try cases op) <;> decide
  · repeat' split
    all_goals simp [spelling]

/-- The tokens of a text. -/
def scan : List Char → List Token
  | [] => []
  | c :: rest => first c rest :: scan ((c :: rest).drop (first c rest).spelling.length)
termination_by cs => cs.length
decreasing_by
  have := List.length_pos_iff.2 (spelling_first_ne_nil c rest)
  simp only [List.length_drop, List.length_cons]
  omega

/-- The spellings of the tokens of a text make up the text. -/
theorem scan_spelling (cs : List Char) : (scan cs).flatMap spelling = cs := by
  fun_induction scan cs with
  | case1 => rfl
  | case2 c rest ih =>
    rw [List.flatMap_cons, ih]
    exact List.prefix_iff_eq_append.1 (spelling_first_isPrefix c rest)

end Token

end Qualifier
