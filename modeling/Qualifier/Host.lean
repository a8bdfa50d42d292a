import Qualifier.Dict
import Qualifier.Host.Number
import Qualifier.Text.Word

/-!
# Host data

The data that an application binds for expressions to read: the JSON data model. Expressions reach
into it by dotted paths. A segment names a field of an object or, written as an unsigned decimal,
an item of an array; scalars have no parts.

Indices are those of a 64-bit machine: a segment too large for one is no index, so no path wraps
around.
-/

namespace Qualifier

/-- A datum supplied by the host. -/
inductive Host where
  /-- The absence of data. -/
  | null
  /-- A truth value. -/
  | bool (value : Bool)
  /-- A number. -/
  | number (value : Host.Number)
  /-- A text. -/
  | string (value : String)
  /-- A sequence of data. -/
  | array (items : List Host)
  /-- Named data. -/
  | object (fields : Dict Host)

namespace Host

instance : Inhabited Host := ⟨null⟩

/-- The part of a datum that one segment of a path names. -/
def child? : Host → String → Option Host
  | .object fields, segment => fields.find? segment
  | .array items, segment => (Text.word? segment.toList).bind fun index ↦ items[index]?
  | _, _ => none

/-- The part of a datum that a path names; failing that, the first segment that names nothing. -/
def descend (datum : Host) : List String → Except String Host
  | [] => .ok datum
  | segment :: rest =>
    match datum.child? segment with
    | some part => part.descend rest
    | none => .error segment

end Host

end Qualifier
