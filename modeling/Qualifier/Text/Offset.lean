/-!
# Byte offsets

Positions in a source count the bytes of its UTF-8 encoding, while a caret below the source counts
characters. `byteLength` measures a text, and `column?` turns an offset that falls between two
characters into the number of characters before it.

The main statement is `column?_append`: the offset where a suffix starts has as many characters
before it as the text in front of the suffix.
-/

namespace Qualifier.Text

/-- The number of bytes of a text in UTF-8. -/
def byteLength : List Char → Nat
  | [] => 0
  | c :: rest => c.utf8Size + byteLength rest

/-- The number of characters before a byte offset, if the offset falls on the border of a character
or on the end. -/
def column? : List Char → Nat → Option Nat
  | _, 0 => some 0
  | [], _ + 1 => none
  | c :: rest, offset + 1 =>
    if c.utf8Size ≤ offset + 1 then (column? rest (offset + 1 - c.utf8Size)).map (· + 1) else none

@[simp] theorem byteLength_nil : byteLength [] = 0 := rfl

@[simp] theorem byteLength_cons (c : Char) (cs : List Char) :
    byteLength (c :: cs) = c.utf8Size + byteLength cs := rfl

theorem byteLength_append (xs ys : List Char) :
    byteLength (xs ++ ys) = byteLength xs + byteLength ys := by
  induction xs with
  | nil => simp
  | cons c cs ih => simp [ih, Nat.add_assoc]

/-- The length in bytes is the size of the encoded text. -/
theorem byteLength_toList (s : String) : byteLength s.toList = s.utf8ByteSize := by
  have encoded (cs : List Char) : byteLength cs = (String.ofList cs).utf8ByteSize := by
    induction cs with
    | nil => simp
    | cons c rest ih =>
      have split : String.ofList (c :: rest) = String.singleton c ++ String.ofList rest := by
        apply String.toList_inj.1
        simp
      rw [byteLength_cons, ih, split, String.utf8ByteSize_append, String.utf8ByteSize_singleton]
  rw [encoded, String.ofList_toList]

/-- An offset that the text in front of it measures is the border after that text. -/
theorem column?_append (xs ys : List Char) :
    column? (xs ++ ys) (byteLength xs) = some xs.length := by
  induction xs with
  | nil => simp [column?]
  | cons c cs ih =>
    have hc := c.utf8Size_pos
    obtain ⟨n, hn⟩ : ∃ n, c.utf8Size + byteLength cs = n + 1 := ⟨_, (Nat.succ_pred (by omega)).symm⟩
    have hrest : n + 1 - c.utf8Size = byteLength cs := by omega
    simp only [List.cons_append, byteLength_cons, hn, column?, hrest, ih]
    simp only [Option.map_some, List.length_cons, ite_eq_left_iff]
    omega

/-- A border of a text is determined by its offset. -/
theorem append_inj_of_byteLength {xs ys xs' ys' : List Char} (h : xs ++ ys = xs' ++ ys')
    (hoffset : byteLength xs = byteLength xs') : xs = xs' ∧ ys = ys' := by
  have hlength := column?_append xs ys
  rw [h, hoffset, column?_append] at hlength
  exact List.append_inj h (Option.some.inj hlength).symm

end Qualifier.Text
