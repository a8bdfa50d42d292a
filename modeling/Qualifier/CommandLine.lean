import Qualifier.Evaluator
import Qualifier.Host.Json
import Qualifier.Scope

/-!
# The command line

Evaluates one expression. Arguments bind data and callbacks, limit the nesting, and give the
expression:

* `-v NAME=VALUE` or `--var NAME=VALUE` binds a datum, any number of times;
* `-c NAME=VALUE` or `--callback NAME=VALUE` registers a callback with one result, any number of
  times;
* `--max-depth N` limits the nesting of parentheses, at most once;
* `--` ends the options, and one argument that is no option is the expression.

The value of an option is the next argument, or follows within the same one: behind `=` for a long
name, directly or behind `=` for a short one. An argument that starts with a hyphen and goes on is
never taken for a value or for the expression, unless it comes after `--`.
-/

namespace Qualifier

/-! ### Bindings -/

/-- A text that should bind a name and does not. -/
structure BindingError where
  /-- The text. -/
  text : String
deriving DecidableEq

/-- The message of the error. -/
def BindingError.message (e : BindingError) : String :=
  "expected NAME=VALUE, found '" ++ e.text ++ "'"

/-- The name and the datum that a text binds: it is cut at its first equals sign, and what follows
the sign is strict JSON or else stands for itself. -/
def Host.ofBinding (text : String) : Except BindingError (String × Host) :=
  let cs := text.toList
  match cs.dropWhile (· ≠ '=') with
  | [] => .error ⟨text⟩
  | _ :: rest =>
    let value := String.ofList rest
    .ok (String.ofList (cs.takeWhile (· ≠ '=')), (Host.Json.ofText? value).getD (.string value))

namespace CommandLine

/-! ### Arguments -/

/-- What an option sets. -/
inductive Setting where
  | datum | callback | limit
deriving DecidableEq

/-- What an argument is, taken by itself. -/
inductive Argument where
  /-- The end of the options. -/
  | ending
  /-- An option, with its value if it holds one. -/
  | option (setting : Setting) (value? : Option String)
  /-- Something that looks like an option and is none. -/
  | unknown
  /-- Anything else. -/
  | plain (text : String)

/-- The option of a long name. -/
def Setting.ofName? (name : List Char) : Option Setting :=
  match String.ofList name with
  | "var" => some .datum
  | "callback" => some .callback
  | "max-depth" => some .limit
  | _ => none

/-- The option of a short name. -/
def Setting.ofLetter? : Char → Option Setting
  | 'v' => some .datum
  | 'c' => some .callback
  | _ => none

/-- The value that follows a long name: what stands behind an equals sign, if there is one. -/
def attachedToName? : List Char → Option String
  | [] => none
  | _ :: value => some (String.ofList value)

/-- The value that follows a short name within an argument. -/
def attachedToLetter? : List Char → Option String
  | [] => none
  | '=' :: value => some (String.ofList value)
  | value => some (String.ofList value)

/-- What an argument is, taken by itself. A lone hyphen is no option. -/
def Argument.ofText (text : String) : Argument :=
  match text.toList with
  | ['-', '-'] => .ending
  | '-' :: '-' :: long =>
    match Setting.ofName? (long.takeWhile (· ≠ '=')) with
    | some setting => .option setting (attachedToName? (long.dropWhile (· ≠ '=')))
    | none => .unknown
  | '-' :: letter :: rest =>
    match Setting.ofLetter? letter with
    | some setting => .option setting (attachedToLetter? rest)
    | none => .unknown
  | _ => .plain text

/-- What arguments ask for. -/
structure Request where
  /-- The bindings. -/
  scope : Scope
  /-- The limit on nesting, if one is given. -/
  limit? : Option Nat
  /-- The expression, if it is given. -/
  source? : Option String

namespace Request

/-- The request before any argument. -/
def start : Request := ⟨∅, none, none⟩

/-- The request with one option more. -/
def set? (request : Request) (setting : Setting) (value : String) : Option Request :=
  match setting with
  | .datum =>
    match Host.ofBinding value with
    | .ok (name, datum) => some { request with scope := request.scope.bind name datum }
    | .error _ => none
  | .callback =>
    match Host.ofBinding value with
    | .ok (name, datum) => some { request with scope := request.scope.register name (.fixed datum) }
    | .error _ => none
  | .limit =>
    match request.limit?, Text.word? value.toList with
    | none, some limit => some { request with limit? := some limit }
    | _, _ => none

/-- The request with its expression, unless it has one. -/
def take? (request : Request) (source : String) : Option Request :=
  match request.source? with
  | none => some { request with source? := some source }
  | some _ => none

/-- The request that arguments make, if all of them can be understood. -/
def read? (request : Request) : List String → Option Request
  | [] => some request
  | argument :: rest =>
    match Argument.ofText argument with
    | .ending => rest.foldlM take? request
    | .option setting (some value) => (request.set? setting value).bind (·.read? rest)
    | .option setting none =>
      match rest with
      | [] => none
      | value :: rest =>
        match Argument.ofText value with
        | .plain value => (request.set? setting value).bind (·.read? rest)
        | _ => none
    | .unknown => none
    | .plain source => (request.take? source).bind (·.read? rest)

end Request

/-! ### Answers -/

/-- What a run of the program leaves. -/
structure Answer where
  /-- The exit code. -/
  code : UInt32
  /-- What is written to standard output. -/
  output : String
  /-- What is written to standard error. -/
  errors : String
deriving DecidableEq

/-- The answer to arguments that make no request. -/
def usage : Answer where
  code := 2
  output := ""
  errors := "usage: [-v NAME=VALUE]... [-c NAME=VALUE]... [--max-depth N] EXPRESSION\n"

/-- The answer to an evaluation: value and label on lines of their own, or the message of the
error, with the place it points at where it concerns the shape of the expression. -/
def Answer.ofResult (source : String) : Except Error Outcome → Answer
  | .ok outcome => ⟨0, outcome.value.display ++ "\n" ++ outcome.label ++ "\n", ""⟩
  | .error (.malformed e) => ⟨1, "", e.message ++ "\n" ++ e.caret source ++ "\n"⟩
  | .error (.failed e) => ⟨1, "", e.message ++ "\n"⟩

/-- Runs the program on its arguments. -/
def run (arguments : List String) : Answer :=
  match Request.start.read? arguments with
  | some ⟨scope, limit?, some source⟩ =>
    let evaluator := (Evaluator.ofSource source).limitedTo (limit?.getD Evaluator.defaultLimit)
    .ofResult source (evaluator.evaluate scope.environment scope.callbacks).1.answer
  | _ => usage

end CommandLine

end Qualifier
