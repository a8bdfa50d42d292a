import Qualifier.Evaluator
import Qualifier.Scope.Shown

/-!
# Sessions

A script of steps on one scope and on evaluators that have names: binding data, registering and
calling callbacks, making, copying and running evaluators. Each step has a reply.

Evaluators share nothing but the scope in which they are run. A step that fails, be it a record
that cannot be bound or an evaluation with an error, leaves data and evaluators as they were; only
calls that were made remain made.
-/

namespace Qualifier

/-- A scope and the evaluators that are run in it. -/
structure Session where
  /-- The scope. -/
  scope : Scope
  /-- The evaluators, by name. -/
  evaluators : Dict Evaluator

namespace Session

/-- A step of a script. -/
inductive Step where
  /-- Binds a datum to a name. -/
  | bind (name : String) (datum : Host)
  /-- Binds a map to a name. -/
  | bindRecord (name : String) (pairs : List (Key × Host))
  /-- Registers a callback. -/
  | register (name : String) (callback : Callback)
  /-- Asks for the datum bound to a name. -/
  | look (name : String)
  /-- Calls a callback. -/
  | call (name : String)
  /-- Asks for the text of the scope. -/
  | inspect
  /-- Makes an evaluator. -/
  | create (id source : String)
  /-- Limits the nesting that an evaluator accepts. -/
  | limit (id : String) (limit : Nat)
  /-- Copies an evaluator. -/
  | copy (id target : String)
  /-- Asks for the state of an evaluator. -/
  | query (id : String)
  /-- Runs an evaluator. -/
  | evaluate (id : String)

/-- The reply to a step. -/
inductive Reply where
  /-- The step was carried out. -/
  | done
  /-- A record was refused. -/
  | refused (error : BindError)
  /-- The datum asked for. -/
  | found (datum? : Option Host)
  /-- The result of a call, and the calls that were recorded. -/
  | called (result? : Option Host) (calls : List String)
  /-- The text of the scope. -/
  | shown (text : String)
  /-- An evaluator. -/
  | state (evaluator : Evaluator)
  /-- The answer of an evaluation, the evaluator afterwards, and the calls that were recorded. -/
  | evaluated (answer : Except Error Outcome) (evaluator : Evaluator) (calls : List String)
  /-- No evaluator has the name. -/
  | unknown

/-- The session before its first step. -/
def start : Session := ⟨∅, ∅⟩

/-- The session with an evaluator under a name. -/
def put (session : Session) (id : String) (evaluator : Evaluator) : Session :=
  { session with evaluators := session.evaluators.insert id evaluator }

/-- Carries a step out. -/
def step (session : Session) : Step → Reply × Session
  | .bind name datum => (.done, { session with scope := session.scope.bind name datum })
  | .bindRecord name pairs =>
    match session.scope.bindRecord name (.ofPairs pairs) with
    | .ok scope => (.done, { session with scope })
    | .error e => (.refused e, session)
  | .register name callback =>
    (.done, { session with scope := session.scope.register name callback })
  | .look name => (.found (session.scope.data.find? name), session)
  | .call name =>
    match session.scope.call? name with
    | some (result, scope) =>
      (.called (some result) (session.scope.recorded [name]), { session with scope })
    | none => (.called none [], session)
  | .inspect => (.shown session.scope.shown, session)
  | .create id source => (.done, session.put id (Evaluator.ofSource source))
  | .limit id limit =>
    match session.evaluators.find? id with
    | some evaluator => (.done, session.put id (evaluator.limitedTo limit))
    | none => (.unknown, session)
  | .copy id target =>
    match session.evaluators.find? id with
    | some evaluator => (.done, session.put target evaluator)
    | none => (.unknown, session)
  | .query id =>
    match session.evaluators.find? id with
    | some evaluator => (.state evaluator, session)
    | none => (.unknown, session)
  | .evaluate id =>
    match session.evaluators.find? id with
    | some evaluator =>
      let scope := session.scope
      let (report, evaluator) := evaluator.evaluate scope.environment scope.callbacks
      let session := { session with scope := { scope with callbacks := report.world } }
      (.evaluated report.answer evaluator (scope.recorded report.calls), session.put id evaluator)
    | none => (.unknown, session)

/-- Carries a script out: the replies in order, and the session afterwards. -/
def run (session : Session) : List Step → List Reply × Session
  | [] => ([], session)
  | step :: rest =>
    let (reply, session) := session.step step
    let (replies, session) := session.run rest
    (reply :: replies, session)

end Session

end Qualifier
