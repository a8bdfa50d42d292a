import Qualifier.Text.Offset

/-!
# Errors

Why an expression has no value. A syntax error concerns the shape of the expression and always
points at a position of its source; an evaluation error concerns the values. Positions are offsets
in bytes of UTF-8.

The wording of all messages is here, and so is the caret that shows a position below the source.
-/

namespace Qualifier

/-- A fault in the shape of an expression. -/
inductive SyntaxError where
  /-- A closing parenthesis that no opening one precedes. -/
  | unmatchedClosing (position : Nat)
  /-- An opening parenthesis that none closes. -/
  | unclosedOpening (position : Nat)
  /-- An operator without an operand on one of its sides. -/
  | missingOperand (symbol : String) (position : Nat)
  /-- An operand directly after another. -/
  | unexpectedOperand (position : Nat)
  /-- No operand at all, in the whole expression or between two parentheses. -/
  | emptyExpression (position : Nat)
  /-- Parentheses nested beyond the limit. -/
  | nestingTooDeep (limit position : Nat)
deriving DecidableEq

/-- A fault in the values of an expression. -/
inductive EvaluationError where
  /-- A division by a value that counts as zero. -/
  | divisionByZero (position : Option Nat)
  /-- A symbol that is no operator, or not one of the kind asked for. -/
  | unknownOperator (symbol : String)
deriving DecidableEq

/-- Why an expression has no value. -/
inductive Error where
  /-- Its shape is at fault. -/
  | malformed (error : SyntaxError)
  /-- Its values are at fault. -/
  | failed (error : EvaluationError)
deriving DecidableEq

namespace SyntaxError

/-- The offset in the source that the error points at. -/
def position : SyntaxError → Nat
  | .unmatchedClosing p | .unclosedOpening p | .missingOperand _ p | .unexpectedOperand p
  | .emptyExpression p | .nestingTooDeep _ p => p

/-- The sentence that states the fault. -/
def reason : SyntaxError → String
  | .unmatchedClosing _ => "Closing parenthesis ')' has no matching '('."
  | .unclosedOpening _ => "Opening parenthesis '(' is never closed."
  | .missingOperand symbol _ => "Operator '" ++ symbol ++ "' is missing an operand."
  | .unexpectedOperand _ => "Expected an operator between two operands."
  | .emptyExpression _ => "Expression is empty."
  | .nestingTooDeep limit _ => "Parentheses nested deeper than " ++ toString limit ++ " levels."

/-- The message of the error. -/
def message (e : SyntaxError) : String :=
  "Error at position " ++ toString e.position ++ ": " ++ e.reason

/-- The source with a caret below the position of the error. A position outside the source, or
within a character, is shown at the first column. -/
def caret (e : SyntaxError) (source : String) : String :=
  let column := (Text.column? source.toList e.position).getD 0
  source ++ "\n" ++ String.ofList (List.replicate column ' ') ++ "^"

end SyntaxError

/-- The message of the error. -/
def EvaluationError.message : EvaluationError → String
  | .divisionByZero (some position) =>
    "Error at position " ++ toString position ++ ": Division by zero."
  | .divisionByZero none => "Error: Division by zero."
  | .unknownOperator symbol => "Error: Unknown operator '" ++ symbol ++ "'."

/-- The message of the error: that of its cause. -/
def Error.message : Error → String
  | .malformed e => e.message
  | .failed e => e.message

end Qualifier
