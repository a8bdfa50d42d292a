import Qualifier.Expression

/-!
# Evaluators

An expression made ready to be evaluated again and again. An evaluator keeps its source, the
lexemes of it, a limit on nesting, and the label that the last successful evaluation gave it;
before the first one the label is the source itself.

Every evaluation starts from the source as label and commits its own label only on success, so no
evaluation can tell what was evaluated before, and a failed one changes nothing.
-/

namespace Qualifier

/-- An expression made ready for evaluation. -/
structure Evaluator where
  /-- The text of the expression. -/
  source : String
  /-- The lexemes of the text. -/
  lexemes : List Lexeme
  /-- The label that the expression has. -/
  label : String
  /-- How deep parentheses may nest. -/
  limit : Nat
deriving DecidableEq

namespace Evaluator

/-- How deep parentheses may nest unless it is said otherwise. -/
def defaultLimit : Nat := 64

/-- The evaluator of a source. -/
def ofSource (source : String) : Evaluator where
  source
  lexemes := Lexeme.scan source
  label := source
  limit := defaultLimit

/-- The evaluator with another limit on nesting. -/
def limitedTo (evaluator : Evaluator) (limit : Nat) : Evaluator :=
  { evaluator with limit }

/-- Evaluates the expression and commits its label if there is one to commit. -/
def evaluate {σ : Type} (evaluator : Evaluator) (env : Environment σ) (world : σ) :
    Report σ × Evaluator :=
  let report :=
    Expression.evaluate env evaluator.limit evaluator.lexemes evaluator.source world
  match report.answer with
  | .ok outcome => (report, { evaluator with label := outcome.label })
  | .error _ => (report, evaluator)

/-- An evaluation starts from the source as label and cannot tell the label of the last one. -/
theorem evaluate_fst {σ : Type} (evaluator : Evaluator) (env : Environment σ) (world : σ) :
    (evaluator.evaluate env world).1 =
      Expression.evaluate env evaluator.limit evaluator.lexemes evaluator.source world := by
  rw [evaluate]
  split <;> rfl

/-- It leaves the evaluator as it was, but for the label of an outcome. -/
theorem evaluate_snd {σ : Type} (evaluator : Evaluator) (env : Environment σ) (world : σ) :
    (evaluator.evaluate env world).2 =
      { evaluator with
        label := ((evaluator.evaluate env world).1.answer.toOption.map Outcome.label).getD
          evaluator.label } := by
  rw [evaluate]
  split
  · next h => simp only [h, Except.toOption, Option.map_some, Option.getD_some]
  · next h => simp only [h, Except.toOption, Option.map_none, Option.getD_none]

end Evaluator

/-- Evaluates a source once. -/
def evaluate {σ : Type} (source : String) (env : Environment σ) (world : σ) : Report σ :=
  ((Evaluator.ofSource source).evaluate env world).1

end Qualifier
