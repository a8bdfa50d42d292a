import Qualifier.Environment

/-!
# Queues

The operands and operators of one level of parentheses, in source order. A queue is well formed if
operands and operators alternate and operands stand at both ends.

`check` finds the first place where a queue is not well formed. `collapse` computes its value:
tier by tier, from the tightest, it sweeps over the queue from left to right and puts the result
of each operator of the tier in the place of the operator and its two operands. It asks for
operands where it needs them, so it answers any queue, well formed or not.
-/

namespace Qualifier

/-- A part of one level of parentheses. -/
inductive Entry where
  /-- An operand with its value, the spelling of a literal as it was written, and its position. -/
  | operand (value : Value) (literal : Option String) (position : Nat)
  /-- An operator with its position. -/
  | operator (op : Operator) (position : Nat)
deriving DecidableEq

/-- Where an entry stands in the source. -/
def Entry.position : Entry → Nat
  | .operand _ _ p | .operator _ p => p

/-- The entries of one level of parentheses, in source order. -/
abbrev Queue := List Entry

namespace Queue

/-! ### Shape -/

/-- Checks a queue that has to start with an operand; `atEnd` is the fault of having none. -/
def checkFrom (atEnd : SyntaxError) : Queue → Except SyntaxError Unit
  | [] => .error atEnd
  | .operator op position :: _ => .error (.missingOperand op.symbol position)
  | [.operand ..] => .ok ()
  | .operand .. :: .operand _ _ position :: _ => .error (.unexpectedOperand position)
  | .operand .. :: .operator op position :: rest =>
    checkFrom (.missingOperand op.symbol position) rest

/-- Checks that a queue is well formed, and otherwise reports the first fault from the left. An
empty queue is reported at the position given for it. -/
def check (queue : Queue) (position : Nat) : Except SyntaxError Unit :=
  checkFrom (.emptyExpression position) queue

/-! ### Value -/

/-- Applies an operator of a queue and notes what happened. A literal on the right of `as` counts
with its spelling rather than with its value. -/
def combine (op : Operator) (left right : Value) (literal : Option String) (position : Nat) :
    Reduction Value := do
  let right := match op, literal with
    | .naming, some text => .string text
    | _, _ => right
  let before := (← get).label
  if op = .naming then
    modify (·.note (.relabelled before right.asText))
  match op.apply left right (some position) before with
  | .error e => throw (.failed e)
  | .ok (result, after) =>
    modify fun ledger ↦ { ledger with label := after }.note (.reduced op left right result)
    return result

/-- Applies the operators of one tier from left to right. The entries before the place that has
been reached are kept in `done`, the nearest first. -/
def sweep (tier : Tier) (done : Queue) : Queue → Reduction Queue
  | [] => return done.reverse
  | .operator op position :: rest =>
    if op.tier = tier then
      match done, rest with
      | .operand left _ start :: before, .operand right literal _ :: rest => do
        let result ← combine op left right literal position
        sweep tier (.operand result none start :: before) rest
      | _, _ => throw (.malformed (.missingOperand op.symbol position))
    else sweep tier (.operator op position :: done) rest
  | entry :: rest => sweep tier (entry :: done) rest

/-- The value of a queue in which no operator is left to apply. -/
def settle : Queue → Except SyntaxError Value
  | [.operand value _ _] => .ok value
  | [] => .error (.emptyExpression 0)
  | _ :: second :: _ => .error (.unexpectedOperand second.position)
  | [.operator op position] => .error (.missingOperand op.symbol position)

/-- A fault of shape as the answer of a computation. -/
def orMalformed {α : Type} : Except SyntaxError α → Reduction α
  | .ok a => return a
  | .error e => throw (.malformed e)

/-- The value of a queue. -/
def collapse (queue : Queue) : Reduction Value := do
  let rest ← Tier.all.foldlM (fun queue tier ↦ sweep tier [] queue) queue
  orMalformed (settle rest)

end Queue

end Qualifier
