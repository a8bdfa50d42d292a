import Qualifier.Environment

/-!
# Operands

What the text of an operand stands for. A text that starts with `$` is a dotted path into bound
data, one that starts with `@` is a call, and everything else is a literal. Looking an operand up
never fails: a name that is not bound, a segment that names no part, and data without a value of
their own all come to `Value.null`, the first two with an event.
-/

namespace Qualifier

/-- An operand, understood. -/
inductive Operand where
  /-- A path: a name, and the segments that lead on from the datum bound to it. -/
  | path (root : String) (segments : List String)
  /-- A call of a callback. -/
  | call (name : String)
  /-- A text that stands for itself. -/
  | literal (text : String)
deriving DecidableEq

namespace Operand

/-- A text cut at its dots: what precedes the first dot, and the pieces that follow. -/
def splitDots : List Char → List Char × List (List Char)
  | [] => ([], [])
  | c :: rest =>
    let (head, tail) := splitDots rest
    if c = '.' then ([], head :: tail) else (c :: head, tail)

/-- The operand that a text spells. -/
def ofText (text : String) : Operand :=
  match text.toList with
  | '$' :: rest =>
    let (root, segments) := splitDots rest
    .path (String.ofList root) (segments.map String.ofList)
  | '@' :: name => .call (String.ofList name)
  | _ => .literal text

/-- The text of a literal; paths and calls have no spelling that could stand for them. -/
def literal? : Operand → Option String
  | .literal text => some text
  | .path .. | .call _ => none

/-- A path as it is written, without its leading sign. -/
def pathText (root : String) : List String → String
  | [] => root
  | segment :: rest => root ++ "." ++ pathText segment rest

theorem pathText_append (a b : String) (segments : List String) :
    pathText (a ++ b) segments = a ++ pathText b segments := by
  cases segments <;> simp [pathText, String.append_assoc]

/-- A path is written as the text that it was cut from. -/
theorem pathText_splitDots (cs : List Char) :
    pathText (String.ofList (splitDots cs).1) ((splitDots cs).2.map String.ofList) =
      String.ofList cs := by
  induction cs with
  | nil => rfl
  | cons c rest ih =>
    simp only [splitDots]
    split
    · next hc =>
      rw [List.map_cons, pathText, ih, hc]
      apply String.toList_inj.1
      simp
    · have head : String.ofList (c :: (splitDots rest).1) =
          String.ofList [c] ++ String.ofList (splitDots rest).1 := by
        apply String.toList_inj.1
        simp
      rw [head, pathText_append, ih]
      apply String.toList_inj.1
      simp

/-- The value of an operand, and the progress after looking it up. -/
def lookUp {σ : Type} (env : Environment σ) (operand : Operand) (progress : Progress σ) :
    Value × Progress σ :=
  match operand with
  | .literal text => (.ofLiteral text, progress)
  | .call name =>
    match env.callback? name with
    | none => (.null, progress.note (.unregisteredCallback name))
    | some callback =>
      let (datum, world) := callback progress.world
      (.ofHost datum, { progress with world }.note (.called name))
  | .path root segments =>
    match env.datum? root with
    | none => (.null, progress.note (.unboundName root))
    | some datum =>
      match datum.descend segments with
      | .ok part => (.ofHost part, progress)
      | .error segment =>
        (.null, progress.note (.missingSegment (pathText root segments) segment))

end Operand

end Qualifier
