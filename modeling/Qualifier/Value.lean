import Qualifier.Double.Text
import Qualifier.Host
import Qualifier.Numeral

/-!
# Values

What expressions compute with: nothing, truth values, numbers and texts. Every value can be read as
a number, as a truth value and as text, and a text that spells a numeral counts as that number
wherever a number is wanted.
-/

namespace Qualifier

/-- A value of an expression. -/
inductive Value where
  /-- Nothing: what unbound names denote. -/
  | null
  /-- A truth value. -/
  | bool (value : Bool)
  /-- A number. -/
  | number (value : Double)
  /-- A text. -/
  | string (value : String)
deriving DecidableEq

namespace Value

instance : Inhabited Value := ⟨null⟩

/-! ### Making values -/

/-- The value of a text written in an expression: a number if it spells a numeral, else the text as
it stands. -/
def ofLiteral (text : String) : Value :=
  match Double.ofText? text with
  | some x => .number x
  | none => .string text

/-- The value of a host datum. Structured data have none of their own. -/
def ofHost : Host → Value
  | .bool b => .bool b
  | .number n => .number n.toDouble
  | .string s => .string s
  | .null | .array _ | .object _ => .null

/-! ### Reading values -/

/-- The value as a number; a text that spells no numeral counts as zero. -/
def asNumber : Value → Double
  | .null | .bool false => .zero false
  | .bool true => .one
  | .number x => x
  | .string s => (Double.ofText? s).getD (.zero false)

/-- The text is one of the spellings of falsity: empty, `0`, or `false` in any case of its
letters. -/
def isFalseText (s : String) : Bool :=
  s.isEmpty || s == "0" || s.toList.map Char.toLower == "false".toList

/-- The value as a truth value. A NaN is true, being different from zero. -/
def asTruth : Value → Bool
  | .null => false
  | .bool b => b
  | .number x => !x.isZero
  | .string s => !isFalseText s

/-- The value as text. -/
def asText : Value → String
  | .null => ""
  | .bool true => "true"
  | .bool false => "false"
  | .number x => x.text
  | .string s => s

/-- The number that the value is or spells; nothing and truth values are no numbers. -/
def numeric? : Value → Option Double
  | .number x => some x
  | .string s => Double.ofText? s
  | .null | .bool _ => none

/-- The value as it is shown: its text, with nothing shown as `null`. -/
def display : Value → String
  | .null => "null"
  | v => v.asText

end Value

end Qualifier
