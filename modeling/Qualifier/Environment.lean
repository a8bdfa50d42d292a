import Qualifier.Event

/-!
# Environments

Where expressions look names up. Data are fixed for the time of an evaluation; callbacks may keep
state, so a callback is a transition on the state `σ` of the world they share. Which names are
bound does not depend on that state.

An evaluation is a computation on its `Progress`: the state of the world, the label and the trail
of events. Progress survives an error, since calls made before a fault have been made. Operators
do not see the world, and `Reduction` is the part of an evaluation that works on the `Ledger`
alone.
-/

namespace Qualifier

/-- What names denote: data, and callbacks that act on a world with states `σ`. -/
structure Environment (σ : Type) where
  /-- The datum bound to a name. -/
  datum? : String → Option Host
  /-- The callback registered under a name. -/
  callback? : String → Option (σ → Host × σ)

/-- What operators may change. -/
structure Ledger where
  /-- The label of the expression so far. -/
  label : String
  /-- The events so far, the oldest first. -/
  trail : Array Event

/-- How far an evaluation has come. -/
structure Progress (σ : Type) extends Ledger where
  /-- The state of the world. -/
  world : σ

/-- A computation with operators: it may fail, and keeps the ledger when it does. -/
abbrev Reduction (α : Type) :=
  ExceptT Error (StateM Ledger) α

/-- A computation with operands and operators: it may fail, and keeps its progress when it does. -/
abbrev Evaluation (σ α : Type) :=
  ExceptT Error (StateM (Progress σ)) α

/-- The ledger with one more event. -/
def Ledger.note (ledger : Ledger) (event : Event) : Ledger :=
  { ledger with trail := ledger.trail.push event }

/-- A computation with operators as part of an evaluation. -/
def Reduction.within {σ α : Type} (reduction : Reduction α) : Evaluation σ α :=
  ExceptT.mk fun progress ↦
    let (answer, ledger) := reduction.run progress.toLedger
    (answer, { progress with toLedger := ledger })

/-- The progress with one more event. -/
def Progress.note {σ : Type} (progress : Progress σ) (event : Event) : Progress σ :=
  { progress with toLedger := progress.toLedger.note event }

end Qualifier
