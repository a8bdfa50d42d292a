import Qualifier.Operator

/-!
# Events

What an evaluation leaves behind for an audit: the calls it made, every look-up that came to
nothing, every change of the label and every operator it applied, in the order in which they
happened.

Events carry values, not texts. All but calls have a line in the log, whose wording is
`Event.line?`.
-/

namespace Qualifier

/-- Something that happened during an evaluation. -/
inductive Event where
  /-- A callback was called. -/
  | called (name : String)
  /-- A path started at a name to which nothing is bound. -/
  | unboundName (name : String)
  /-- A path left the data at a segment that names no part. -/
  | missingSegment (path segment : String)
  /-- A call named no callback. -/
  | unregisteredCallback (name : String)
  /-- The label changed. -/
  | relabelled (before after : String)
  /-- An operator was applied. -/
  | reduced (op : Operator) (left right result : Value)
deriving DecidableEq

/-- How much attention a line of the log asks for. -/
inductive Level where
  | trace | debug
deriving DecidableEq

/-- A line of the log. -/
structure Line where
  /-- How much attention it asks for. -/
  level : Level
  /-- What happened. -/
  message : String
  /-- The particulars, by name. -/
  fields : List (String × String)
deriving DecidableEq

namespace Event

/-- The line that an event has in the log. -/
def line? : Event → Option Line
  | .called _ => none
  | .unboundName name =>
    some ⟨.trace, "unbound variable resolves to null", [("variable", name)]⟩
  | .missingSegment path segment =>
    some ⟨.trace, "missing path segment resolves to null", [("path", path), ("segment", segment)]⟩
  | .unregisteredCallback name =>
    some ⟨.trace, "unregistered callback resolves to null", [("callback", name)]⟩
  | .relabelled before after =>
    some ⟨.debug, "alias reassigned", [("from", before), ("to", after)]⟩
  | .reduced op left right result =>
    some ⟨.trace, "reduced", [("op", op.symbol), ("left", left.display), ("right", right.display),
      ("result", result.display)]⟩

/-- The callback that an event is a call of. -/
def call? : Event → Option String
  | .called name => some name
  | _ => none

end Event

end Qualifier
