/-!
# Doubles

The data of IEEE 754 binary64, without the payloads of NaNs.

A finite magnitude is kept as its *rank*: its position among the non-negative finite doubles in
increasing order, starting from zero. Neighbours in value are neighbours in rank, equal data are
equal terms, and the largest rank plus one is where infinity would follow. Every finite magnitude
is a whole number of *quanta* of `2 ^ -1074`, so exact arithmetic on doubles is arithmetic on
integers.

Comparison needs no magnitudes: it is comparison of signed ranks, in which the two zeros coincide.
The main statements are `eq_self_iff`, that only a NaN differs from itself, and `ofBits_toBits`,
that the interchange encoding loses nothing.
-/

namespace Qualifier

/-- The number of ranks in a binade, `2 ^ 52`. -/
abbrev Double.binade : Nat :=
  0x10000000000000

/-- The number of finite magnitudes: 2046 binades of normal numbers and one of subnormal ones. -/
abbrev Double.rankBound : Nat :=
  2047 * Double.binade

/-- A binary64 datum. -/
inductive Double where
  /-- Not a number. -/
  | nan
  /-- An infinity. -/
  | infinite (negative : Bool)
  /-- A finite number, by sign and rank; both zeros have rank zero. -/
  | finite (negative : Bool) (rank : Fin Double.rankBound)
deriving DecidableEq

namespace Double

/-! ### Magnitudes -/

/-- The magnitude of a rank, in quanta of `2 ^ -1074`. Below `2 ^ 52` ranks count quanta; from
there on each run of `2 ^ 52` ranks doubles the step. The rank that follows the last finite one
has the magnitude `2 ^ 1024`, in whose place infinity stands. -/
def magnitude (rank : Nat) : Nat :=
  if rank < binade then rank
  else (binade + rank % binade) * Nat.pow 2 (rank / binade - 1)

/-- The quanta that make up the number one, `2 ^ 1074`. -/
def unit : Nat :=
  Nat.pow 2 1074

/-- The zero of a sign. -/
def zero (negative : Bool) : Double :=
  .finite negative ⟨0, by decide⟩

/-- The number one. -/
def one : Double :=
  .finite false ⟨1023 * binade, by decide⟩

/-- The double of a sign and a rank, infinite where the rank is no longer that of a finite one. -/
def ofRank (negative : Bool) (rank : Nat) : Double :=
  if h : rank < rankBound then .finite negative ⟨rank, h⟩ else .infinite negative

/-- The double with its sign turned. -/
def neg : Double → Double
  | .nan => .nan
  | .infinite negative => .infinite !negative
  | .finite negative rank => .finite (!negative) rank

instance : Neg Double := ⟨neg⟩

/-! ### Comparison -/

/-- The signed rank, by which doubles are ordered: zeros share it, infinities lie beyond every
finite double, and a NaN has none. -/
def key : Double → Option Int
  | .nan => none
  | .infinite negative => some (if negative then -(rankBound : Int) else rankBound)
  | .finite negative rank => some (if negative then -(rank : Int) else rank)

/-- Equality of numbers: zeros are equal, a NaN equals nothing. -/
def eq (x y : Double) : Bool :=
  match x.key, y.key with
  | some a, some b => a == b
  | _, _ => false

/-- Order of numbers; false where a NaN takes part. -/
def lt (x y : Double) : Bool :=
  match x.key, y.key with
  | some a, some b => a < b
  | _, _ => false

/-- Order of numbers, equality allowed; false where a NaN takes part. -/
def le (x y : Double) : Bool :=
  match x.key, y.key with
  | some a, some b => a ≤ b
  | _, _ => false

/-- Whether the double is one of the two zeros. -/
def isZero (x : Double) : Bool :=
  x.eq (zero false)

theorem eq_comm (x y : Double) : x.eq y = y.eq x := by
  unfold eq
  cases x.key <;> cases y.key <;> simp [BEq.comm]

theorem eq_self_iff {x : Double} : x.eq x = true ↔ x ≠ .nan := by
  cases x <;> simp [eq, key]

/-- Numbers are equal if they share a place in the order. -/
theorem eq_iff_key_eq {x y : Double} (h : x ≠ .nan) : x.eq y = true ↔ x.key = y.key := by
  cases x with
  | nan => exact absurd rfl h
  | infinite | finite => cases y <;> simp [eq, key]

/-! ### Interchange format -/

/-- The interchange encoding: a sign bit above the 63 bits of the rank. All NaNs are written as the
quiet one. -/
def toBits : Double → UInt64
  | .nan => 0x7FF8000000000000
  | .infinite negative => signBit negative + UInt64.ofNat rankBound
  | .finite negative rank => signBit negative + UInt64.ofNat rank
where
  /-- The top bit, set for a negative datum. -/
  signBit (negative : Bool) : UInt64 :=
    if negative then 0x8000000000000000 else 0

/-- The weight of the top bit of a word, `2 ^ 63`. -/
abbrev signWeight : Nat :=
  0x8000000000000000

/-- The datum that a word encodes. -/
def ofBits (word : UInt64) : Double :=
  let negative := decide (signWeight ≤ word.toNat)
  let rank := word.toNat % signWeight
  if rankBound < rank then .nan else ofRank negative rank

/-- Encoding loses nothing. -/
theorem ofBits_toBits (x : Double) : ofBits x.toBits = x := by
  rcases x with _ | s | ⟨s, r⟩
  · decide
  · cases s <;> decide
  · have hr : r.val < 9218868437227405312 := r.isLt
    have word : (UInt64.ofNat r).toNat = r := by
      rw [UInt64.toNat_ofNat']
      exact Nat.mod_eq_of_lt (by omega)
    have finite : ¬ rankBound < r.val := by simp
    cases s <;>
      simp only [toBits, toBits.signBit, ofBits, signWeight, UInt64.toNat_add, word,
        Bool.false_eq_true, if_true, if_false]
    · have sum : ((0 : UInt64).toNat + r.val) % 2 ^ 64 = r := by
        change (0 + r.val) % 2 ^ 64 = r
        omega
      have rank : r.val % 0x8000000000000000 = r := by omega
      have sign : ¬ 0x8000000000000000 ≤ r.val := by omega
      simp only [sum, rank, sign, finite, if_false, decide_false]
      simp [ofRank]
    · have sum : ((0x8000000000000000 : UInt64).toNat + r.val) % 2 ^ 64 =
          0x8000000000000000 + r.val := by
        change (0x8000000000000000 + r.val) % 2 ^ 64 = 0x8000000000000000 + r.val
        omega
      have rank : (0x8000000000000000 + r.val) % 0x8000000000000000 = r := by omega
      have sign : 0x8000000000000000 ≤ 0x8000000000000000 + r.val := by omega
      simp only [sum, rank, sign, finite, if_false, decide_true]
      simp [ofRank]

end Double

end Qualifier
