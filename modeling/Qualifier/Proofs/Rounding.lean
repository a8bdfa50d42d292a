import Mathlib.Algebra.Order.Field.Rat
import Mathlib.Tactic.FieldSimp
import Mathlib.Tactic.Linarith
import Mathlib.Tactic.NormNum
import Mathlib.Tactic.Positivity
import Mathlib.Tactic.Ring
import Qualifier.Double.Rounding

/-!
# Rounding to the nearest

Rounding by ranks is rounding in the sense of IEEE 754: to the nearest double, to the even one of
two equally near, to infinity from half a step above the largest finite double on
(`Double.Rounds`). The main statement is `Double.rounds_ofDecimal`, about the exact numbers that
decimals denote.

The ranks part the non-negative numbers into *cells*. The cell of a rank lies between the points
halfway to its neighbours, and such a point belongs to its even side (`Double.InCell`). That cells
do not overlap (`InCell.unique`) rests on the magnitudes growing with the ranks and on nothing else,
and so does the nearness of a rank to the numbers of its cell (`InCell.abs_sub_le`). How the
magnitudes grow is only asked for when a rank is computed (`inCell_nearestRank`).
-/

namespace Qualifier

/-- The number that a decimal denotes. -/
def Decimal.toRat (x : Decimal) : ℚ :=
  x.coefficient * 10 ^ x.exponent

namespace Double

/-! ### Magnitudes -/

theorem cast_unit_pos : (0 : ℚ) < unit :=
  Nat.cast_pos.2 (by decide +kernel)

/-- The number that a rank stands for. -/
def value (rank : Nat) : ℚ :=
  magnitude rank / unit

/-- Where the step has doubled `shift` times, magnitudes are whole numbers of steps. -/
theorem magnitude_add {shift whole : Nat} (hwhole : whole ≤ 2 * binade)
    (hshift : shift = 0 ∨ binade ≤ whole) :
    magnitude (shift * binade + whole) = whole * 2 ^ shift := by
  obtain hlow | hhigh := Nat.lt_or_ge whole binade
  · obtain rfl : shift = 0 := hshift.resolve_right (Nat.not_le.2 hlow)
    rw [Nat.zero_mul, Nat.zero_add, magnitude, if_pos hlow, Nat.pow_zero, Nat.mul_one]
  · have hrank : ¬shift * binade + whole < binade := by omega
    rw [magnitude, if_neg hrank]
    obtain rfl | hne := eq_or_ne whole (2 * binade)
    · have hmod : (shift * binade + 2 * binade) % binade = 0 := by
        rw [← Nat.add_mul, Nat.mul_mod_left]
      have hdiv : (shift * binade + 2 * binade) / binade = shift + 2 := by
        rw [← Nat.add_mul, Nat.mul_div_cancel _ (by decide)]
      rw [hmod, hdiv]
      show (binade + 0) * 2 ^ (shift + 1) = _
      rw [Nat.pow_succ]
      ring
    · have hmod : (shift * binade + whole) % binade = whole - binade := by
        simp only [binade] at *
        omega
      have hdiv : (shift * binade + whole) / binade = shift + 1 := by
        simp only [binade] at *
        omega
      rw [hmod, hdiv, Nat.add_sub_cancel' hhigh]
      rfl

/-- Each rank is so many doublings of the step and so many steps. -/
theorem exists_rank_eq (rank : Nat) :
    ∃ shift whole, rank = shift * binade + whole ∧ whole < 2 * binade ∧
      (shift = 0 ∨ binade ≤ whole) := by
  refine ⟨rank / binade - 1, rank - (rank / binade - 1) * binade, ?_⟩
  simp only [binade]
  omega

theorem magnitude_lt_succ (rank : Nat) : magnitude rank < magnitude (rank + 1) := by
  obtain ⟨shift, whole, rfl, hwhole, hshift⟩ := exists_rank_eq rank
  rw [Nat.add_assoc, magnitude_add (by omega) hshift, magnitude_add hwhole (by omega)]
  exact Nat.mul_lt_mul_of_pos_right (Nat.lt_succ_self whole) (Nat.two_pow_pos shift)

theorem magnitude_strictMono : StrictMono magnitude :=
  strictMono_nat_of_lt_succ magnitude_lt_succ

/-! ### Cells -/

/-- Twice the number of quanta halfway between a rank and the next. -/
def border (rank : Nat) : Nat :=
  magnitude rank + magnitude (rank + 1)

theorem border_lt_succ (rank : Nat) : border rank < border (rank + 1) :=
  Nat.add_lt_add (magnitude_lt_succ rank) (magnitude_lt_succ (rank + 1))

theorem border_strictMono : StrictMono border :=
  strictMono_nat_of_lt_succ border_lt_succ

/-- A number of quanta is in the cell of a rank if it lies between the borders of the rank. A
border is in the cell of its even side. -/
structure InCell (x : ℚ) (rank : Nat) : Prop where
  /-- The border to the rank before, if there is one, is not above the number, -/
  lower : ∀ below, rank = below + 1 → border below < 2 * x ∨ (border below = 2 * x ∧ rank % 2 = 0)
  /-- and the border to the rank behind is not below it. -/
  upper : 2 * x < border rank ∨ (2 * x = border rank ∧ rank % 2 = 0)

namespace InCell

variable {x : ℚ} {rank other : Nat}

theorem border_le (h : InCell x rank) (hlt : other < rank) : (border other : ℚ) ≤ 2 * x := by
  obtain ⟨below, rfl⟩ : ∃ below, rank = below + 1 := ⟨rank - 1, by omega⟩
  have hmono : (border other : ℚ) ≤ border below :=
    Nat.cast_le.2 (border_strictMono.monotone (Nat.le_of_lt_succ hlt))
  obtain hlower | ⟨hlower, -⟩ := h.lower below rfl
  · exact hmono.trans hlower.le
  · exact hmono.trans hlower.le

theorem le_border (h : InCell x rank) (hle : rank ≤ other) : 2 * x ≤ (border other : ℚ) := by
  have hmono : (border rank : ℚ) ≤ border other :=
    Nat.cast_le.2 (border_strictMono.monotone hle)
  obtain hupper | ⟨hupper, -⟩ := h.upper
  · exact hupper.le.trans hmono
  · exact hupper.le.trans hmono

/-- A number on a border is in the cell of the even side. -/
theorem even_of_eq (h : InCell x rank) (hborder : 2 * x = border other)
    (hother : rank = other ∨ rank = other + 1) : rank % 2 = 0 := by
  obtain rfl | rfl := hother
  · obtain hupper | ⟨-, heven⟩ := h.upper
    · exact absurd hborder hupper.ne
    · exact heven
  · obtain hlower | ⟨-, heven⟩ := h.lower other rfl
    · exact absurd hborder hlower.ne'
    · exact heven

/-- Cells have nothing in common. -/
theorem unique (h : InCell x rank) (h' : InCell x other) : rank = other := by
  wlog hlt : rank < other generalizing rank other
  · obtain heq | hgt := (Nat.not_lt.1 hlt).eq_or_lt
    · exact heq.symm
    · exact (this h' h hgt).symm
  have hupper := h.le_border (Nat.le_refl rank)
  have hlower := h'.border_le hlt
  have hnext : other = rank + 1 := by
    by_contra hne
    have hfar : (border (rank + 1) : ℚ) ≤ 2 * x := h'.border_le (by omega)
    have hstep : (border rank : ℚ) < border (rank + 1) := Nat.cast_lt.2 (border_lt_succ rank)
    linarith
  have hborder : 2 * x = border rank := le_antisymm hupper hlower
  have heven := h.even_of_eq hborder (.inl rfl)
  have heven' := h'.even_of_eq hborder (.inr hnext)
  omega

theorem add_le_of_lt (h : InCell x rank) (hlt : other < rank) :
    (magnitude other : ℚ) + magnitude rank ≤ 2 * x := by
  obtain ⟨below, rfl⟩ : ∃ below, rank = below + 1 := ⟨rank - 1, by omega⟩
  have hborder := h.border_le (Nat.lt_succ_self below)
  have hmono : (magnitude other : ℚ) ≤ magnitude below :=
    Nat.cast_le.2 (magnitude_strictMono.monotone (Nat.le_of_lt_succ hlt))
  rw [border, Nat.cast_add] at hborder
  linarith

theorem le_add_of_lt (h : InCell x rank) (hlt : rank < other) :
    2 * x ≤ (magnitude rank : ℚ) + magnitude other := by
  have hborder := h.le_border (Nat.le_refl rank)
  have hmono : (magnitude (rank + 1) : ℚ) ≤ magnitude other :=
    Nat.cast_le.2 (magnitude_strictMono.monotone hlt)
  rw [border, Nat.cast_add] at hborder
  linarith

/-- No rank is nearer to a number than that of its cell. -/
theorem abs_sub_le (h : InCell x rank) (other : Nat) :
    |x - magnitude rank| ≤ |x - magnitude other| := by
  obtain hlt | rfl | hgt := Nat.lt_trichotomy other rank
  · have hmono : (magnitude other : ℚ) < magnitude rank := Nat.cast_lt.2 (magnitude_strictMono hlt)
    have hsum := h.add_le_of_lt hlt
    rw [abs_of_nonneg (show 0 ≤ x - magnitude other by linarith)]
    exact abs_le.2 ⟨by linarith, by linarith⟩
  · exact le_refl _
  · have hmono : (magnitude rank : ℚ) < magnitude other := Nat.cast_lt.2 (magnitude_strictMono hgt)
    have hsum := h.le_add_of_lt hgt
    rw [abs_of_nonpos (show x - magnitude other ≤ 0 by linarith)]
    exact abs_le.2 ⟨by linarith, by linarith⟩

/-- If another rank is as near to a number as that of its cell, the number is on a border. -/
theorem even_of_abs_sub_eq (h : InCell x rank) (hne : other ≠ rank)
    (habs : |x - magnitude rank| = |x - magnitude other|) : rank % 2 = 0 := by
  obtain hlt | hgt := Nat.lt_or_gt_of_ne hne
  · obtain ⟨below, rfl⟩ : ∃ below, rank = below + 1 := ⟨rank - 1, by omega⟩
    have hmono : (magnitude other : ℚ) ≤ magnitude below :=
      Nat.cast_le.2 (magnitude_strictMono.monotone (Nat.le_of_lt_succ hlt))
    have hstrict : (magnitude other : ℚ) < magnitude (below + 1) :=
      Nat.cast_lt.2 (magnitude_strictMono hlt)
    have hborder := h.border_le (Nat.lt_succ_self below)
    refine h.even_of_eq (le_antisymm ?_ hborder) (.inr rfl)
    rw [border, Nat.cast_add]
    obtain heq | heq := abs_eq_abs.1 habs
    · linarith
    · linarith
  · have hmono : (magnitude (rank + 1) : ℚ) ≤ magnitude other :=
      Nat.cast_le.2 (magnitude_strictMono.monotone hgt)
    have hstrict : (magnitude rank : ℚ) < magnitude other :=
      Nat.cast_lt.2 (magnitude_strictMono hgt)
    have hborder := h.le_border (Nat.le_refl rank)
    refine h.even_of_eq (le_antisymm hborder ?_) (.inl rfl)
    rw [border, Nat.cast_add]
    obtain heq | heq := abs_eq_abs.1 habs
    · linarith
    · linarith

end InCell

/-! ### Rounding -/

/-- For a quotient the borders can be compared in whole numbers. -/
theorem inCell_div {n d rank : Nat} (hd : 0 < d)
    (hlower : ∀ below, rank = below + 1 →
      border below * d < 2 * n ∨ (border below * d = 2 * n ∧ rank % 2 = 0))
    (hupper : 2 * n < border rank * d ∨ (2 * n = border rank * d ∧ rank % 2 = 0)) :
    InCell (n / d : ℚ) rank := by
  have hd' : (0 : ℚ) < d := Nat.cast_pos.2 hd
  refine ⟨fun below hbelow ↦ (hlower below hbelow).imp (fun h ↦ ?_) (.imp_left fun h ↦ ?_),
    hupper.imp (fun h ↦ ?_) (.imp_left fun h ↦ ?_)⟩
  · rw [← mul_div_assoc, lt_div_iff₀ hd']
    exact_mod_cast h
  · rw [← mul_div_assoc, eq_div_iff hd'.ne']
    exact_mod_cast h
  · rw [← mul_div_assoc, div_lt_iff₀ hd']
    exact_mod_cast h
  · rw [← mul_div_assoc, div_eq_iff hd'.ne']
    exact_mod_cast h

/-- The doublings of the step are as many as it takes to bring so many quanta below `2 ^ 53` steps,
and no more. -/
theorem div_pow_log2_bounds (k : Nat) :
    k / 2 ^ (k.log2 - 52) < 2 * binade ∧
      (k.log2 - 52 = 0 ∨ binade ≤ k / 2 ^ (k.log2 - 52)) := by
  have hupper : k < 2 ^ (k.log2 + 1) := Nat.lt_log2_self
  constructor
  · rw [Nat.div_lt_iff_lt_mul (Nat.two_pow_pos _)]
    have hbinade : 2 * binade = 2 ^ 53 := by decide
    rw [hbinade, ← Nat.pow_add]
    exact hupper.trans_le (Nat.pow_le_pow_right Nat.two_pos (by omega))
  · obtain hlarge | hsmall := Nat.lt_or_ge 52 k.log2
    · refine .inr ?_
      have hne : k ≠ 0 := by
        rintro rfl
        exact absurd hlarge (by decide)
      have hbinade : binade = 2 ^ 52 := by decide
      rw [Nat.le_div_iff_mul_le (Nat.two_pow_pos _), hbinade, ← Nat.pow_add]
      have hsum : 52 + (k.log2 - 52) = k.log2 := by omega
      rw [hsum]
      exact Nat.log2_self_le hne
    · exact .inl (by omega)

/-- Between two neighbouring ranks a step apart, the remainder of a quotient tells the nearer one,
and the parity of the whole steps tells the even one. -/
theorem inCell_ite {n d rank step whole rest : Nat} (hd : 0 < d)
    (hbelow : magnitude rank * d = step * whole)
    (habove : magnitude (rank + 1) * d = step * (whole + 1)) (hsplit : step * whole + rest = n)
    (hrest : rest < step) (hparity : rank % 2 = whole % 2) :
    InCell (n / d : ℚ)
      (if step < 2 * rest ∨ (2 * rest = step ∧ whole % 2 = 1) then rank + 1 else rank) := by
  have hborder : border rank * d = 2 * (step * whole) + step := by
    rw [border, Nat.add_mul, hbelow, habove, Nat.mul_succ]
    omega
  rw [Nat.mul_succ] at habove
  split
  · next h =>
    refine inCell_div hd (fun below heq ↦ ?_) (.inl ?_)
    · obtain rfl : rank = below := Nat.succ.inj heq
      omega
    · have hlt := Nat.mul_lt_mul_of_pos_right (magnitude_lt_succ (rank + 1)) hd
      rw [border, Nat.add_mul]
      omega
  · next h =>
    refine inCell_div hd (fun below heq ↦ .inl ?_) ?_
    · have hlt := Nat.mul_lt_mul_of_pos_right (magnitude_lt_succ below) hd
      rw [border, Nat.add_mul, ← heq]
      rw [← heq] at hlt
      omega
    · omega

/-- The rank that a quotient is rounded to is that of its cell. -/
theorem inCell_nearestRank (n : Nat) {d : Nat} (hd : 0 < d) :
    InCell (n / d : ℚ) (nearestRank n d) := by
  obtain ⟨hwhole, hshift⟩ := div_pow_log2_bounds (n / d)
  rw [Nat.div_div_eq_div_mul] at hwhole hshift
  have hstep := Nat.mul_pos hd (Nat.two_pow_pos ((n / d).log2 - 52))
  refine inCell_ite hd ?_ ?_ (Nat.div_add_mod n _) (Nat.mod_lt n hstep) ?_
  · rw [Nat.pow_eq, magnitude_add hwhole.le hshift]
    ring
  · rw [Nat.pow_eq, Nat.add_assoc, magnitude_add (Nat.add_one_le_iff.2 hwhole)
      (hshift.imp_right Nat.le_succ_of_le)]
    ring
  · simp only [binade]
    omega

/-- The cells leave nothing out. -/
theorem exists_inCell {x : ℚ} (hx : 0 ≤ x) : ∃ rank, InCell x rank := by
  refine ⟨nearestRank x.num.toNat x.den, ?_⟩
  have hquotient : ((x.num.toNat : ℚ) / x.den : ℚ) = x := by
    have hnum : ((x.num.toNat : ℤ) : ℚ) = x.num :=
      congrArg _ (Int.toNat_of_nonneg (Rat.num_nonneg.2 hx))
    rw [← Int.cast_natCast, hnum, Rat.num_div_den]
  have hcell := inCell_nearestRank x.num.toNat x.den_pos
  rwa [hquotient] at hcell

/-- Where overflow begins: halfway from the largest finite double to `2 ^ 1024`. -/
def overflowBound : ℚ :=
  2 ^ 1024 - 2 ^ 970

theorem border_pred_rankBound : (border (rankBound - 1) : ℚ) = 2 * (overflowBound * unit) := by
  have hborder : border (rankBound - 1) + 2 * (2 ^ 970 * unit) = 2 * (2 ^ 1024 * unit) := by
    decide +kernel
  have hcast := congrArg (Nat.cast : ℕ → ℚ) hborder
  simp only [Nat.cast_add, Nat.cast_mul, Nat.cast_pow, Nat.cast_ofNat] at hcast
  rw [overflowBound, sub_mul, mul_sub, ← hcast, add_sub_cancel_right]

/-! ### The nearest double -/

/-- Among the finite doubles a number is rounded to the nearest one, and to the even one of two
equally near. The last bit of a rank is the last bit of the significand. -/
structure IsNearest (q : ℚ) (rank : Fin rankBound) : Prop where
  /-- No other is nearer, -/
  nearest : ∀ other : Fin rankBound, |q - value rank| ≤ |q - value other|
  /-- and if another is as near, this one is even. -/
  even : ∀ other : Fin rankBound, other ≠ rank → |q - value rank| = |q - value other| →
    rank.val % 2 = 0

/-- A double is what a number, given by its sign and its magnitude, is rounded to. -/
structure Rounds (negative : Bool) (q : ℚ) (x : Double) : Prop where
  /-- It is infinite if the magnitude is too large, -/
  overflow : overflowBound ≤ q → x = .infinite negative
  /-- and else the nearest finite one, -/
  nearest : q < overflowBound → ∃ rank, x = .finite negative rank ∧ IsNearest q rank
  /-- which is zero if the magnitude is no more than half the least positive one. -/
  underflow : q ≤ 1 / 2 ^ 1075 → x = zero negative

theorem value_sub (q : ℚ) (rank : Nat) :
    q - value rank = (q * unit - magnitude rank) / unit := by
  rw [value, sub_div, mul_div_cancel_right₀ q cast_unit_pos.ne']

theorem abs_sub_value (q : ℚ) (rank : Nat) :
    |q - value rank| = |q * unit - magnitude rank| / unit := by
  rw [value_sub, abs_div, abs_of_pos cast_unit_pos]

theorem InCell.isNearest {q : ℚ} {rank : Fin rankBound} (h : InCell (q * unit) rank) :
    IsNearest q rank := by
  refine ⟨fun other ↦ ?_, fun other hne habs ↦ ?_⟩
  · rw [abs_sub_value, abs_sub_value]
    exact div_le_div_of_nonneg_right (h.abs_sub_le other) cast_unit_pos.le
  · rw [abs_sub_value, abs_sub_value] at habs
    exact h.even_of_abs_sub_eq (Fin.val_ne_of_ne hne) ((div_left_inj' cast_unit_pos.ne').1 habs)

/-- The rank of the cell is that of a finite double exactly if the number does not overflow. -/
theorem InCell.lt_rankBound_iff {q : ℚ} {rank : Nat} (h : InCell (q * unit) rank) :
    rank < rankBound ↔ q < overflowBound := by
  have hlast : q < overflowBound ↔ 2 * (q * unit) < border (rankBound - 1) := by
    rw [border_pred_rankBound, mul_lt_mul_iff_right₀ two_pos, mul_lt_mul_iff_left₀ cast_unit_pos]
  rw [hlast]
  constructor
  · intro hlt
    refine lt_of_le_of_ne (h.le_border (Nat.le_pred_of_lt hlt)) fun heq ↦ ?_
    obtain hbefore | rfl := Nat.lt_or_eq_of_le (Nat.le_pred_of_lt hlt)
    · have hmono : (border rank : ℚ) < border (rankBound - 1) :=
        Nat.cast_lt.2 (border_strictMono hbefore)
      exact absurd (h.le_border (Nat.le_refl rank)) (not_le.2 (hmono.trans_eq heq.symm))
    · exact absurd (h.even_of_eq heq (.inl rfl)) (by decide)
  · intro hlt
    by_contra hnot
    have hbefore : rankBound - 1 < rank := (by decide : rankBound - 1 < rankBound).trans_le
      (Nat.not_lt.1 hnot)
    exact absurd (h.border_le hbefore) (not_le.2 hlt)

/-- The double of the cell of a number is the one that the number is rounded to. -/
theorem InCell.rounds {q : ℚ} {rank : Nat} (h : InCell (q * unit) rank) (negative : Bool) :
    Rounds negative q (ofRank negative rank) := by
  refine ⟨fun hover ↦ ?_, fun hbound ↦ ?_, fun hunder ↦ ?_⟩
  · rw [ofRank, dif_neg (h.lt_rankBound_iff.not.2 (not_lt.2 hover))]
  · have hlt := h.lt_rankBound_iff.2 hbound
    exact ⟨⟨rank, hlt⟩, dif_pos hlt, h.isNearest⟩
  · have hunit : 2 * unit = 2 ^ 1075 := by decide +kernel
    have hcast := congrArg (Nat.cast : ℕ → ℚ) hunit
    simp only [Nat.cast_mul, Nat.cast_pow, Nat.cast_ofNat] at hcast
    have hle : 2 * (q * unit) ≤ border 0 := by
      have hborder : (border 0 : ℚ) = 1 := by norm_num [border, magnitude]
      rw [hborder, mul_left_comm, hcast]
      exact (le_div_iff₀ (pow_pos two_pos _)).1 hunder
    have hzero : InCell (q * unit) 0 :=
      ⟨fun below heq ↦ absurd heq (Nat.succ_ne_zero below).symm, hle.lt_or_eq.imp_right (⟨·, rfl⟩)⟩
    rw [h.unique hzero]
    rfl

theorem Rounds.ne_nan {negative : Bool} {q : ℚ} {x : Double} (h : Rounds negative q x) :
    x ≠ .nan := by
  obtain hover | hbound := le_or_gt overflowBound q
  · rw [h.overflow hover]
    exact nofun
  · obtain ⟨rank, rfl, -⟩ := h.nearest hbound
    exact nofun

end Double

/-! ### Decimals -/

namespace Decimal

/-- Digits count the more the more digits follow them. -/
theorem ofDigits_append (xs ys : List Char) :
    ofDigits (xs ++ ys) = ofDigits xs * 10 ^ ys.length + ofDigits ys := by
  have shifted (n : Nat) : ys.foldl (fun n c ↦ 10 * n + digitValue c) n =
      n * 10 ^ ys.length + ofDigits ys := by
    induction ys generalizing n with
    | nil => simp [ofDigits]
    | cons c ys ih =>
      have hys : ofDigits (c :: ys) = (10 * 0 + digitValue c) * 10 ^ ys.length + ofDigits ys := ih _
      rw [List.foldl_cons, ih, hys, List.length_cons, pow_succ]
      grind
  rw [ofDigits, List.foldl_append, shifted]
  rfl

theorem lt_pow_width (n : Nat) : n < 10 ^ width n := by
  fun_induction width n with
  | case1 n h => exact h
  | case2 n h ih =>
    rw [pow_succ]
    omega

theorem pow_width_le {n : Nat} (h : n ≠ 0) : 10 ^ width n ≤ 10 * n := by
  fun_induction width n with
  | case1 n hn => omega
  | case2 n hn ih =>
    have hprefix := ih (by omega)
    rw [pow_succ]
    omega

/-- A decimal is below the power of ten that its digits do not reach, -/
theorem toRat_lt (x : Decimal) : x.toRat < 10 ^ (x.exponent + width x.coefficient) := by
  have hwidth : (x.coefficient : ℚ) < 10 ^ width x.coefficient := by
    exact_mod_cast lt_pow_width x.coefficient
  rw [toRat, zpow_add₀ (by norm_num), zpow_natCast, mul_comm]
  exact mul_lt_mul_of_pos_left hwidth (zpow_pos (by norm_num) _)

/-- and if it is not zero it is not below the power of ten of its leading digit. -/
theorem pow_le_toRat {x : Decimal} (h : x.coefficient ≠ 0) :
    10 ^ (x.exponent + width x.coefficient) ≤ 10 * x.toRat := by
  have hwidth : (10 : ℚ) ^ width x.coefficient ≤ 10 * x.coefficient := by
    exact_mod_cast pow_width_le h
  rw [toRat, zpow_add₀ (by norm_num), zpow_natCast, mul_comm, ← mul_assoc]
  exact mul_le_mul_of_nonneg_right hwidth (zpow_nonneg (by norm_num) _)

end Decimal

namespace Double

theorem ofRatio_eq {n d rank : Nat} (hd : 0 < d) (h : InCell (n / d : ℚ) rank) (negative : Bool) :
    ofRatio negative n d = ofRank negative rank := by
  rw [ofRatio, (inCell_nearestRank n hd).unique h]

/-- The decimals that are taken for zero at sight are too small for any other double, -/
theorem toRat_le_of_small {x : Decimal}
    (h : x.coefficient = 0 ∨ x.exponent + Decimal.width x.coefficient < -400) :
    x.toRat ≤ 1 / 2 ^ 1075 := by
  obtain hzero | hsmall := h
  · rw [Decimal.toRat, hzero, Nat.cast_zero, zero_mul]
    positivity
  · have hpow : (2 : ℚ) ^ 1075 ≤ 10 ^ 401 := by
      have hnat : 2 ^ 1075 ≤ 10 ^ 401 := by decide +kernel
      simpa only [Nat.cast_pow, Nat.cast_ofNat] using Nat.cast_le (α := ℚ).2 hnat
    calc x.toRat ≤ 10 ^ (x.exponent + Decimal.width x.coefficient) := x.toRat_lt.le
      _ ≤ 10 ^ (-401 : ℤ) := zpow_le_zpow_right₀ (by norm_num) (by omega)
      _ = 1 / 10 ^ 401 := by rw [zpow_neg, one_div]; rfl
      _ ≤ 1 / 2 ^ 1075 := one_div_le_one_div_of_le (pow_pos two_pos _) hpow

/-- and those that are taken for infinite are too large. -/
theorem le_toRat_of_large {x : Decimal} (hne : x.coefficient ≠ 0)
    (h : 400 < x.exponent + Decimal.width x.coefficient) : overflowBound ≤ x.toRat := by
  have hpow : (10 : ℚ) * overflowBound ≤ 10 ^ 401 := by
    have hnat : 10 * 2 ^ 1024 ≤ 10 ^ 401 := by decide +kernel
    have hcast : (10 : ℚ) * 2 ^ 1024 ≤ 10 ^ 401 := by
      simpa only [Nat.cast_mul, Nat.cast_pow, Nat.cast_ofNat] using Nat.cast_le (α := ℚ).2 hnat
    have hsub : overflowBound ≤ 2 ^ 1024 := sub_le_self _ (pow_nonneg zero_le_two _)
    exact (mul_le_mul_of_nonneg_left hsub (by norm_num)).trans hcast
  have hten : 10 * overflowBound ≤ 10 * x.toRat := calc
    10 * overflowBound ≤ 10 ^ 401 := hpow
    _ = 10 ^ (401 : ℤ) := rfl
    _ ≤ 10 ^ (x.exponent + Decimal.width x.coefficient) :=
      zpow_le_zpow_right₀ (by norm_num) (by omega)
    _ ≤ 10 * x.toRat := Decimal.pow_le_toRat hne
  exact le_of_mul_le_mul_left hten (by norm_num)

/-- A decimal is rounded to the double of its cell. -/
theorem ofDecimal_eq {x : Decimal} {rank : Nat} (h : InCell (x.toRat * unit) rank)
    (negative : Bool) : ofDecimal negative x = ofRank negative rank := by
  unfold ofDecimal
  dsimp only
  split
  · next hsmall => exact ((h.rounds negative).underflow (toRat_le_of_small hsmall)).symm
  · next hsmall =>
    obtain ⟨hne, -⟩ := not_or.1 hsmall
    split
    · next hlarge => exact ((h.rounds negative).overflow (le_toRat_of_large hne hlarge)).symm
    · obtain ⟨coefficient, exponent⟩ := x
      cases exponent with
      | ofNat e =>
        refine ofRatio_eq Nat.one_pos ?_ negative
        rw [Nat.cast_one, div_one, Nat.cast_mul, Nat.cast_mul, Nat.pow_eq, Nat.cast_pow,
          Nat.cast_ofNat]
        rwa [Decimal.toRat, Int.ofNat_eq_natCast, zpow_natCast] at h
      | negSucc e =>
        refine ofRatio_eq (Nat.pow_pos (by decide)) ?_ negative
        rw [Nat.cast_mul, Nat.cast_pow, Nat.cast_ofNat, mul_div_right_comm]
        rwa [Decimal.toRat, zpow_negSucc, ← div_eq_mul_inv] at h

theorem toRat_nonneg (x : Decimal) : 0 ≤ x.toRat :=
  mul_nonneg (Nat.cast_nonneg _) (zpow_nonneg (by norm_num) _)

/-- The double of a decimal is what the number is rounded to. -/
theorem rounds_ofDecimal (negative : Bool) (x : Decimal) :
    Rounds negative x.toRat (ofDecimal negative x) := by
  have hnonneg : 0 ≤ x.toRat * unit := mul_nonneg (toRat_nonneg x) cast_unit_pos.le
  obtain ⟨rank, hrank⟩ := exists_inCell hnonneg
  rw [ofDecimal_eq hrank]
  exact hrank.rounds negative

/-- And so it is with integers. -/
theorem rounds_ofInt (n : Int) : Rounds (decide (n < 0)) n.natAbs (ofInt n) := by
  have hcell := inCell_nearestRank (n.natAbs * unit) Nat.one_pos
  rw [Nat.cast_one, div_one, Nat.cast_mul] at hcell
  exact hcell.rounds _

end Double

end Qualifier
