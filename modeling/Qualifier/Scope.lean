import Qualifier.Environment

/-!
# Scopes

The environment that an application builds up: data by name, and callbacks by name, independent of
each other. In both the last write to a name wins.

A callback either always gives the same result, or follows a script: one result for each call, the
last of them for all calls after it. Only scripted callbacks are recorded when they are called. The
script that is left is the state of the world in which an expression is evaluated.
-/

namespace Qualifier

/-! ### Callbacks -/

/-- What a registered name does when it is called. -/
inductive Callback where
  /-- Gives one result, always. -/
  | fixed (result : Host)
  /-- Gives these results in turn and then repeats the last; without any it gives nothing. -/
  | scripted (results : List Host)

namespace Callback

/-- The result of a call, and the callback as it is afterwards. -/
def call : Callback → Host × Callback
  | .fixed result => (result, .fixed result)
  | .scripted [] => (.null, .scripted [])
  | .scripted [result] => (result, .scripted [result])
  | .scripted (result :: rest) => (result, .scripted rest)

/-- Whether calls are recorded. -/
def isRecorded : Callback → Bool
  | .fixed _ => false
  | .scripted _ => true

end Callback

/-! ### Records -/

/-- A key of a record, before it is made text. -/
inductive Key where
  /-- A text, which is itself. -/
  | text (value : String)
  /-- A number, written as host data are. -/
  | number (value : Host.Number)
  /-- A truth value, written as a word. -/
  | truth (value : Bool)
  /-- A datum that cannot be a key. -/
  | unusable

/-- Why a record cannot be bound. -/
inductive BindError where
  /-- One of its keys cannot be made text. -/
  | keyNotText
deriving DecidableEq

/-- The message of the error. -/
def BindError.message : BindError → String
  | .keyNotText => "key must be a string"

/-- The text of a key. -/
def Key.asText : Key → Except BindError String
  | .text s => .ok s
  | .number n => .ok n.text
  | .truth b => .ok (if b then "true" else "false")
  | .unusable => .error .keyNotText

/-- What an application binds as a whole: host data, sequences, and maps with keys of any kind. -/
inductive Record where
  /-- A host datum. -/
  | host (value : Host)
  /-- A sequence of records. -/
  | sequence (items : List Record)
  /-- Records by key, in the order in which they are written. -/
  | map (pairs : List (Key × Record))

namespace Record

mutual

/-- The datum that a record amounts to. The keys of maps are made text, and of equal texts the last
counts. -/
def toHost : Record → Except BindError Host
  | .host value => .ok value
  | .sequence items => do return .array (← toItems items)
  | .map pairs => do return .object (Dict.ofList (← toBindings pairs))

/-- The data that the items of a sequence amount to. -/
def toItems : List Record → Except BindError (List Host)
  | [] => .ok []
  | record :: rest => do return (← toHost record) :: (← toItems rest)

/-- The bindings that the pairs of a map amount to. -/
def toBindings : List (Key × Record) → Except BindError (List (String × Host))
  | [] => .ok []
  | (key, record) :: rest => do return (← key.asText, ← toHost record) :: (← toBindings rest)

end

/-- The record of a map to host data. -/
def ofPairs (pairs : List (Key × Host)) : Record :=
  .map (pairs.map fun (key, datum) ↦ (key, .host datum))

end Record

/-! ### Scopes -/

/-- Data and callbacks by name. -/
structure Scope where
  /-- The data. -/
  data : Dict Host
  /-- The callbacks. -/
  callbacks : Dict Callback

namespace Scope

/-- The scope in which nothing is bound. -/
def empty : Scope := ⟨∅, ∅⟩

instance : EmptyCollection Scope := ⟨empty⟩
instance : Inhabited Scope := ⟨empty⟩

/-- The scope with a datum bound to a name. -/
def bind (scope : Scope) (name : String) (datum : Host) : Scope :=
  { scope with data := scope.data.insert name datum }

/-- The scope with a record bound to a name as the datum that it amounts to. -/
def bindRecord (scope : Scope) (name : String) (record : Record) : Except BindError Scope :=
  record.toHost.map (scope.bind name)

/-- The scope with a callback registered under a name. -/
def register (scope : Scope) (name : String) (callback : Callback) : Scope :=
  { scope with callbacks := scope.callbacks.insert name callback }

/-- Calls a callback: its result, and the scope afterwards. -/
def call? (scope : Scope) (name : String) : Option (Host × Scope) :=
  (scope.callbacks.find? name).map fun callback ↦
    (callback.call.1, scope.register name callback.call.2)

/-- The scope as an environment. The state of the world is how far the callbacks have come. -/
def environment (scope : Scope) : Environment (Dict Callback) where
  datum? := scope.data.find?
  callback? name := (scope.callbacks.find? name).map fun callback now ↦
    let (result, next) := ((now.find? name).getD callback).call
    (result, now.insert name next)

/-- The calls among those given that are recorded. -/
def recorded (scope : Scope) (calls : List String) : List String :=
  calls.filter fun name ↦ (scope.callbacks.find? name).any Callback.isRecorded

end Scope

end Qualifier
