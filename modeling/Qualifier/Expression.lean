import Qualifier.Lexeme
import Qualifier.Operand
import Qualifier.Queue

/-!
# Expressions

The value of a list of lexemes. Each level of parentheses gathers a queue from left to right: an
operand is looked up at once, and a group in parentheses is read by recursion and counts as an
operand at its opening parenthesis. When its level ends, a queue is checked and collapsed.

Reading a group consumes lexemes up to its closing parenthesis and returns the rest, which is
never longer than what it was given; the recursion carries a bound for this, and ends because each
step leaves fewer lexemes.

A whole expression that is one literal is that literal as it was written, even if it spells a
numeral.
-/

namespace Qualifier

namespace Expression

/-- The value of the queue of a finished level; `position` is where an empty one is reported. -/
def finish (queue : Queue) (position : Nat) : Reduction Value := do
  Queue.orMalformed (queue.check position)
  queue.collapse

/-- The value of the queue of a whole expression. -/
def conclude : Queue → Reduction Value
  | [.operand _ (some text) _] => return .string text
  | queue => finish queue 0

/-- Reads a level of parentheses up to its end and returns its value and the lexemes behind it.
`depth` levels enclose it, `start` is the position of the parenthesis that opened it, if it is not
the outermost level, and `done` holds the entries that have been read, the last first. -/
def group {σ : Type} (env : Environment σ) (limit n depth : Nat) (start : Option Nat)
    (done : Queue) (lexemes : List Lexeme) (bound : lexemes.length ≤ n) :
    Evaluation σ (Value × { rest : List Lexeme // rest.length ≤ n }) :=
  match lexemes with
  | [] =>
    match start with
    | some position => throw (.malformed (.unclosedOpening position))
    | none => do
      let value ← (conclude done.reverse).within
      return (value, ⟨[], Nat.zero_le n⟩)
  | .operand text span :: rest => do
    let operand := Operand.ofText text
    let value ← modifyGet (operand.lookUp env)
    let entry := Entry.operand value operand.literal? span.start
    group env limit n depth start (entry :: done) rest (Nat.le_of_succ_le bound)
  | .operator op span :: rest =>
    group env limit n depth start (.operator op span.start :: done) rest
      (Nat.le_of_succ_le bound)
  | .opening span :: rest =>
    if limit ≤ depth then throw (.malformed (.nestingTooDeep limit span.start))
    else do
      let (value, after) ←
        group env limit rest.length (depth + 1) (some span.start) [] rest (Nat.le_refl _)
      let entry := Entry.operand value none span.start
      group env limit n depth start (entry :: done) after.val
        (Nat.le_trans after.property (Nat.le_of_succ_le bound))
  | .closing span :: rest =>
    match start with
    | none => throw (.malformed (.unmatchedClosing span.start))
    | some position => do
      let value ← (finish done.reverse position).within
      return (value, ⟨rest, Nat.le_of_succ_le bound⟩)
termination_by lexemes.length
decreasing_by
  all_goals simp only [List.length_cons]
  · omega
  · omega
  · omega
  · have := after.property
    omega

/-- The value of a whole expression in which parentheses nest up to `limit` levels deep. -/
def value {σ : Type} (env : Environment σ) (limit : Nat) (lexemes : List Lexeme) :
    Evaluation σ Value := do
  let (value, _) ← group env limit lexemes.length 0 none [] lexemes (Nat.le_refl _)
  return value

end Expression

/-- What an expression amounts to. -/
structure Outcome where
  /-- Its value. -/
  value : Value
  /-- Its label. -/
  label : String
deriving DecidableEq

/-- Whether the section that the expression qualifies applies. -/
def Outcome.applies (outcome : Outcome) : Bool :=
  outcome.value.asTruth

/-- All that can be told after an evaluation. -/
structure Report (σ : Type) where
  /-- The outcome, or why there is none. -/
  answer : Except Error Outcome
  /-- What happened, the oldest event first. -/
  trail : List Event
  /-- The state in which the world was left. -/
  world : σ

/-- The callbacks that were called, in the order of the calls. -/
def Report.calls {σ : Type} (report : Report σ) : List String :=
  report.trail.filterMap Event.call?

/-- Evaluates the lexemes of an expression that starts out with a label. -/
def Expression.evaluate {σ : Type} (env : Environment σ) (limit : Nat) (lexemes : List Lexeme)
    (label : String) (world : σ) : Report σ :=
  let start : Progress σ := { label, trail := #[], world }
  let (answer, progress) := (Expression.value env limit lexemes).run start
  { answer := answer.map fun value ↦ ⟨value, progress.label⟩
    trail := progress.trail.toList
    world := progress.world }

end Qualifier
