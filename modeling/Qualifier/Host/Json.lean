import Qualifier.Double.Arithmetic
import Qualifier.Host
import Qualifier.Numeral

/-!
# Strict JSON

Reading a text as one JSON datum. The grammar is the standard one and nothing beyond it: no
leading zeros, no bare points, no comma before a closing bracket, no control characters in
strings, no halves of surrogate pairs. Of fields with one name the last counts. Arrays and objects
nest at most `maxDepth` deep.

Numbers are converted quickly rather than exactly. The digits are gathered into a 64-bit integer,
the integer is rounded to a double, and the double is scaled by powers of ten, which may round
again. A number too large for a double is refused. Only digits alone, without a point or an
exponent, can be an integer, and then it is exact.

A reader returns what it has read and the rest of the text, with a proof that the rest is shorter;
the loops over items end because of it, and nesting is bounded by the depth that is left.
-/

namespace Qualifier.Host.Json

/-- What a reader has made of the front of a text with `n` characters. -/
structure Reading (α : Type) (n : Nat) where
  /-- What was read. -/
  value : α
  /-- The text behind it. -/
  rest : List Char
  /-- Something was consumed. -/
  shorter : rest.length < n

/-- A reader of the front of a text. -/
abbrev Reader (α : Type) :=
  (cs : List Char) → Option (Reading α cs.length)

namespace Reading

/-- A reading of a text, as one of a longer text. -/
def widen {α : Type} {m n : Nat} (r : Reading α m) (h : m ≤ n) : Reading α n :=
  { r with shorter := Nat.lt_of_lt_of_le r.shorter h }

/-- A reading with its value transformed. -/
def map {α β : Type} {n : Nat} (f : α → β) (r : Reading α n) : Reading β n :=
  { r with value := f r.value }

end Reading

/-- Whether a character may stand between the parts of a JSON text. -/
def isBlank (c : Char) : Bool :=
  c = ' ' || c = '\t' || c = '\n' || c = '\r'

/-- The text without leading blanks. -/
def skip (cs : List Char) : List Char :=
  cs.dropWhile isBlank

theorem length_skip_le (cs : List Char) : (skip cs).length ≤ cs.length :=
  (List.dropWhile_suffix isBlank).length_le

/-! ### Numbers -/

/-- The digits of a number gathered into an integer. -/
structure Gathered where
  /-- The integer; it fits 64 bits. -/
  significand : Nat
  /-- The power of ten by which it is off. -/
  exponent : Int

/-- Gathers the digits before the point. From the first digit that would no longer fit, digits only
count as factors of ten. -/
def gatherWhole (n : Nat) : List Char → Gathered
  | [] => ⟨n, 0⟩
  | c :: rest =>
    let next := 10 * n + Decimal.digitValue c
    if next < Text.wordBound then gatherWhole next rest else ⟨n, rest.length + 1⟩

/-- Gathers the digits behind the point. From the first digit that would no longer fit, digits are
dropped. -/
def gatherFraction (g : Gathered) : List Char → Gathered
  | [] => g
  | c :: rest =>
    let next := 10 * g.significand + Decimal.digitValue c
    if next < Text.wordBound then gatherFraction ⟨next, g.exponent - 1⟩ rest else g

/-- The power of ten nearest to `10 ^ n`. -/
def powerOfTen (n : Nat) : Double :=
  .ofDecimal false ⟨1, n⟩

/-- A magnitude scaled by a power of ten, infinite where it becomes too large. No factor is beyond
`10 ^ 308`; a smaller exponent takes several divisions. -/
def scale (x : Double) (exponent : Int) : Double :=
  if exponent.natAbs ≤ 308 then
    if 0 ≤ exponent then x * powerOfTen exponent.natAbs else x / powerOfTen exponent.natAbs
  else if x.isZero then x
  else if 0 ≤ exponent then .infinite false
  else scale (x / powerOfTen 308) (exponent + 308)
termination_by exponent.natAbs
decreasing_by omega

/-- The double that a number comes to, given its sign, the digits before and behind the point, and
its exponent. It has to be finite. -/
def real? (negative : Bool) (whole fraction : List Char) (exponent : Int) : Option Number :=
  let g := gatherFraction (gatherWhole 0 whole) fraction
  let x := scale (.ofInt g.significand) (g.exponent + exponent)
  Number.ofDouble? (if negative then -x else x)

/-- The number of digits alone: an integer if it fits, else a double. -/
def whole? (negative : Bool) (digits : List Char) : Option Number :=
  Number.ofInteger? negative (Decimal.ofDigits digits) <|> real? negative digits [] 0

/-- Whether the text goes on with a fraction or an exponent. -/
def continues : List Char → Bool
  | c :: _ => c = '.' || c = 'e' || c = 'E'
  | [] => false

/-- Reads the fraction of a number, if it has one. A point needs digits behind it. -/
def readFraction? : List Char → Option (List Char × List Char)
  | '.' :: rest =>
    let (digits, rest) := Numeral.readDigits rest
    if digits = [] then none else some (digits, rest)
  | cs => some ([], cs)

/-- Reads a number whose sign is gone. -/
def readMagnitude? (negative : Bool) (cs : List Char) : Option (Number × List Char) := do
  let (whole, rest) := Numeral.readDigits cs
  if whole = [] ∨ (whole.head? = some '0' ∧ whole ≠ ['0']) then none
  else if continues rest then
    let (fraction, rest) ← readFraction? rest
    let (exponent, rest) ← Numeral.readExponent? rest
    let n ← real? negative whole fraction exponent
    return (n, rest)
  else
    let n ← whole? negative whole
    return (n, rest)

/-- Reads a number. -/
def readNumber? : List Char → Option (Number × List Char)
  | '-' :: rest => readMagnitude? true rest
  | cs => readMagnitude? false cs

/-! ### Strings -/

/-- The value of a hexadecimal digit. -/
def hexValue? (c : Char) : Option Nat :=
  if c.isDigit then some (c.toNat - '0'.toNat)
  else if 'a' ≤ c ∧ c ≤ 'f' then some (c.toNat - 'a'.toNat + 10)
  else if 'A' ≤ c ∧ c ≤ 'F' then some (c.toNat - 'A'.toNat + 10)
  else none

/-- The number that four hexadecimal digits spell. -/
def hexUnit? (a b c d : Char) : Option Nat := do
  return ((((← hexValue? a) * 16 + (← hexValue? b)) * 16 + (← hexValue? c)) * 16) + (← hexValue? d)

/-- The character that a letter after a backslash stands for. -/
def escaped? : Char → Option Char
  | '"' => some '"'
  | '\\' => some '\\'
  | '/' => some '/'
  | 'b' => some '\x08'
  | 'f' => some '\x0c'
  | 'n' => some '\n'
  | 'r' => some '\r'
  | 't' => some '\t'
  | _ => none

/-- The character of a pair of surrogates. -/
def joinSurrogates (high low : Nat) : Char :=
  Char.ofNat (0x10000 + (high - 0xD800) * 0x400 + (low - 0xDC00))

/-- Reads a string whose opening quote is gone, up to its closing one. -/
def readString? : List Char → Option (List Char × List Char)
  | '"' :: rest => some ([], rest)
  | '\\' :: 'u' :: a :: b :: c :: d :: rest => do
    let unit ← hexUnit? a b c d
    if 0xDC00 ≤ unit ∧ unit ≤ 0xDFFF then none
    else if 0xD800 ≤ unit ∧ unit ≤ 0xDBFF then
      match rest with
      | '\\' :: 'u' :: a :: b :: c :: d :: rest => do
        let low ← hexUnit? a b c d
        if 0xDC00 ≤ low ∧ low ≤ 0xDFFF then
          let (cs, rest) ← readString? rest
          return (joinSurrogates unit low :: cs, rest)
        else none
      | _ => none
    else
      let (cs, rest) ← readString? rest
      return (Char.ofNat unit :: cs, rest)
  | '\\' :: letter :: rest => do
    let c ← escaped? letter
    let (cs, rest) ← readString? rest
    return (c :: cs, rest)
  | c :: rest => do
    if c < ' ' ∨ c = '\\' then none
    else
      let (cs, rest) ← readString? rest
      return (c :: cs, rest)
  | [] => none

/-! ### Data -/

/-- Reads a datum without parts. -/
def readScalar? : List Char → Option (Host × List Char)
  | 'n' :: 'u' :: 'l' :: 'l' :: rest => some (.null, rest)
  | 't' :: 'r' :: 'u' :: 'e' :: rest => some (.bool true, rest)
  | 'f' :: 'a' :: 'l' :: 's' :: 'e' :: rest => some (.bool false, rest)
  | '"' :: rest => (readString? rest).map fun (cs, rest) ↦ (.string (String.ofList cs), rest)
  | cs => (readNumber? cs).map fun (n, rest) ↦ (.number n, rest)

/-- The reading that a result amounts to; one that consumed nothing is none. -/
def reading? {α : Type} (result : Option (α × List Char)) (n : Nat) : Option (Reading α n) :=
  result.bind fun (value, rest) ↦
    if h : rest.length < n then some ⟨value, rest, h⟩ else none

/-- Reads what follows an item of a sequence: more items, each behind a comma, and the closing
bracket. The items read so far are in `done`, the last first. -/
def moreItems {α : Type} (item : Reader α) (close : Char) (done : List α) (cs : List Char) :
    Option (Reading (List α) cs.length) :=
  match h : skip cs with
  | [] => none
  | c :: rest =>
    have rest_lt : rest.length < cs.length := by
      have := length_skip_le cs
      rw [h] at this
      exact this
    if c = close then some ⟨done.reverse, rest, rest_lt⟩
    else if c = ',' then do
      let r ← item (skip rest)
      have r_lt : r.rest.length < cs.length :=
        Nat.lt_of_lt_of_le r.shorter (Nat.le_trans (length_skip_le rest) (Nat.le_of_lt rest_lt))
      let all ← moreItems item close (r.value :: done) r.rest
      return all.widen (Nat.le_of_lt r_lt)
    else none
termination_by cs.length

/-- Reads the items of a sequence whose opening bracket is gone, up to its closing one. -/
def readItems {α : Type} (item : Reader α) (close : Char) (cs : List Char) :
    Option (Reading (List α) cs.length) :=
  match h : skip cs with
  | [] => none
  | c :: rest =>
    have within : (c :: rest).length ≤ cs.length := h ▸ length_skip_le cs
    if c = close then some ⟨[], rest, within⟩
    else do
      let r ← item (c :: rest)
      let all ← moreItems item close [r.value] r.rest
      return all.widen (Nat.le_trans (Nat.le_of_lt r.shorter) within)

/-- Reads a field of an object. -/
def readField (datum : Reader Host) : Reader (String × Host)
  | '"' :: rest => do
    let key ← reading? (readString? rest) rest.length
    match h : skip key.rest with
    | ':' :: rest' => do
      let value ← datum (skip rest')
      have shrinks : (skip rest').length ≤ rest.length := by
        have h₁ := length_skip_le rest'
        have h₂ := length_skip_le key.rest
        have h₃ := key.shorter
        rw [h, List.length_cons] at h₂
        omega
      let field := value.map fun v ↦ (String.ofList key.value, v)
      return field.widen (Nat.le_succ_of_le shrinks)
    | _ => none
  | _ => none

/-- Reads a datum in which arrays and objects nest at most `depth` deep. -/
def readDatum : (depth : Nat) → Reader Host
  | 0, '[' :: _ | 0, '\x7b' :: _ => none
  | depth + 1, '[' :: rest => do
    let items ← readItems (readDatum depth) ']' rest
    return (items.map Host.array).widen (Nat.le_succ _)
  | depth + 1, '\x7b' :: rest => do
    let fields ← readItems (readField (readDatum depth)) '\x7d' rest
    return (fields.map fun bindings ↦ Host.object (Dict.ofList bindings)).widen (Nat.le_succ _)
  | _, cs => reading? (readScalar? cs) cs.length

/-- How deep arrays and objects may nest. -/
def maxDepth : Nat := 127

/-- The datum that a whole text spells. -/
def ofText? (text : String) : Option Host := do
  let r ← readDatum maxDepth (skip text.toList)
  if skip r.rest = [] then some r.value else none

end Qualifier.Host.Json
