import Qualifier.Scope
import Qualifier.Text.Quoted

/-!
# Scopes as they are shown

The text of a scope for inspection: its data in full, and the names of its callbacks, both in the
order of their names.
-/

namespace Qualifier

/-- The members of a list as they are shown, between brackets. -/
def shownList (members : List String) : String :=
  "[" ++ ", ".intercalate members ++ "]"

/-- The bindings of a map as they are shown, between braces. -/
def shownMap (bindings : List (String × String)) : String :=
  "\x7b" ++ ", ".intercalate (bindings.map fun b ↦ Text.quoted b.1 ++ ": " ++ b.2) ++ "\x7d"

mutual

/-- A datum as it is shown: its kind and its content. -/
def Host.shown : Host → String
  | .null => "Null"
  | .bool b => "Bool(" ++ (if b then "true" else "false") ++ ")"
  | .number n => "Number(" ++ n.text ++ ")"
  | .string s => "String(" ++ Text.quoted s ++ ")"
  | .array items => "Array " ++ shownList (Host.shownItems items)
  | .object ⟨entries⟩ => "Object " ++ shownMap (Host.shownFields entries)

/-- The items of an array as they are shown. -/
def Host.shownItems : List Host → List String
  | [] => []
  | item :: rest => item.shown :: Host.shownItems rest

/-- The fields of an object as they are shown. -/
def Host.shownFields : List (String × Host) → List (String × String)
  | [] => []
  | (name, datum) :: rest => (name, datum.shown) :: Host.shownFields rest

end

/-- A scope as it is shown. -/
def Scope.shown (scope : Scope) : String :=
  "Scope \x7b variables: " ++ shownMap (scope.data.entries.map fun b ↦ (b.1, b.2.shown)) ++
    ", callbacks: " ++ shownList (scope.callbacks.keys.map Text.quoted) ++ " \x7d"

end Qualifier
