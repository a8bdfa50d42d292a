import Qualifier.Text.Offset
import Qualifier.Text.Space
import Qualifier.Token

/-!
# Lexemes

What an expression is made of: operands, operators and parentheses, each with the range of bytes
that it takes in the source.

Operands need no quotes. A stretch of text and of the blanks within it is one operand, ended by a
symbol, by `as`, or by the end of the source. The word `as` is an operator exactly where a blank
stands directly on both sides of it; elsewhere it is text. An operand's text is trimmed of white
space of any kind, and a stretch of nothing else is no operand; the span is that of the stretch as
it was found, from its first run of text to its last.
-/

namespace Qualifier

/-- A range of bytes of a source, its end excluded. -/
structure Span where
  /-- The offset of the first byte. -/
  start : Nat
  /-- The offset behind the last byte. -/
  stop : Nat
deriving DecidableEq

/-- A piece of an expression, with its place in the source. -/
inductive Lexeme where
  /-- An operand, not yet looked up. -/
  | operand (text : String) (span : Span)
  /-- A binary operator. -/
  | operator (op : Operator) (span : Span)
  /-- An opening parenthesis. -/
  | opening (span : Span)
  /-- A closing parenthesis. -/
  | closing (span : Span)
deriving DecidableEq

namespace Lexeme

/-- The range of bytes that a lexeme takes. -/
def span : Lexeme → Span
  | .operand _ s | .operator _ s | .opening s | .closing s => s

/-- An operand in the making: a stretch of text that may still go on. -/
structure Stretch where
  /-- Where the stretch starts. -/
  start : Nat
  /-- The runs that make it up so far, the last first; the last is a run of text. -/
  runs : List (List Char)
  /-- The blanks seen since, which belong to it only if more text follows. -/
  gap : List Char
deriving DecidableEq

namespace Stretch

/-- The stretch with a run of text added, or begun by it. -/
def extend (stretch : Option Stretch) (offset : Nat) (run : List Char) : Stretch :=
  match stretch with
  | none => ⟨offset, [run], []⟩
  | some s => ⟨s.start, run :: s.gap :: s.runs, []⟩

/-- The stretch with a run of blanks behind it. -/
def skip (s : Stretch) (run : List Char) : Stretch :=
  { s with gap := s.gap ++ run }

/-- The text of a stretch, up to its last run of text. -/
def text (s : Stretch) : List Char :=
  s.runs.reverse.flatten

/-- The operand that a stretch amounts to, if there is one. -/
def finish : Option Stretch → List Lexeme
  | none => []
  | some s =>
    let trimmed := Text.trim s.text
    if trimmed = [] then []
    else [.operand (String.ofList trimmed) ⟨s.start, s.start + Text.byteLength s.text⟩]

end Stretch

/-- Whether the next token is a run of blanks. -/
def startsBlank : List Token → Bool
  | .blank _ :: _ => true
  | _ => false

/-- The lexemes of the tokens from an offset on. `afterBlank` tells whether the token before was a
run of blanks, and `stretch` is the operand that is in the making. -/
def assemble (offset : Nat) (afterBlank : Bool) (stretch : Option Stretch) :
    List Token → List Lexeme
  | [] => Stretch.finish stretch
  | token :: rest =>
    let stop := offset + Text.byteLength token.spelling
    let place : Span := ⟨offset, stop⟩
    match token with
    | .blank run => assemble stop true (stretch.map (·.skip run)) rest
    | .text run =>
      if run = Operator.naming.symbol.toList ∧ afterBlank ∧ startsBlank rest then
        Stretch.finish stretch ++ .operator .naming place :: assemble stop false none rest
      else assemble stop false (some (Stretch.extend stretch offset run)) rest
    | .operator op => Stretch.finish stretch ++ .operator op place :: assemble stop false none rest
    | .opening => Stretch.finish stretch ++ .opening place :: assemble stop false none rest
    | .closing => Stretch.finish stretch ++ .closing place :: assemble stop false none rest

/-- The lexemes of a source. -/
def scan (source : String) : List Lexeme :=
  assemble 0 false none (Token.scan source.toList)

end Lexeme

end Qualifier
