import Emend.Number.Binary64
import Mathlib.Algebra.Order.Field.Rat
import Mathlib.Data.Int.Log
import Mathlib.Data.Rat.Floor
import Mathlib.Tactic.Linarith
import Mathlib.Tactic.Positivity

/-!
# Rounding keeps order

Rounding to the binary64 grid keeps the order of rationals that are not negative (`nearest_mono`),
so that ratios compare with a threshold, and with each other, as the counts they are made of do. On
one grid this is the order of whole numbers (`roundEven_mono`). Between two grids stands a power of
two that is on both of them, and rounding does not pass it (`nearest_le_two_zpow`,
`two_zpow_le_nearest`). So a share of a total that the significand can count stays below one when it
is rounded (`nearest_div_le_belowOne`).
-/

namespace Emend

variable {x y : Rat}

/-! ## Whole numbers -/

/-- Rounding to a whole number goes to one of the two around it. -/
theorem roundEven_bounds (x : Rat) : x.floor ≤ roundEven x ∧ roundEven x ≤ x.floor + 1 := by
  unfold roundEven
  dsimp only
  split_ifs <;> omega

/-- Rounding to a whole number keeps order. -/
theorem roundEven_mono (h : x ≤ y) : roundEven x ≤ roundEven y := by
  have hx := roundEven_bounds x
  have hy := roundEven_bounds y
  rcases (Rat.floor_monotone h).lt_or_eq with hfloor | hfloor
  · omega
  · -- Above the same whole number the part that is left decides.
    have hrest : x - x.floor ≤ y - x.floor := sub_le_sub_right h _
    unfold roundEven
    dsimp only
    rw [← hfloor]
    split_ifs <;> first | omega | linarith

/-- A whole number is rounded to itself. -/
theorem roundEven_intCast (n : Int) : roundEven n = n := by
  unfold roundEven
  dsimp only
  rw [Rat.floor_intCast, sub_self, if_pos (by norm_num)]

/-! ## Grids -/

/-- The powers of two around a positive whole number, as rationals. -/
theorem two_zpow_log2 {n : Nat} (hn : n ≠ 0) :
    (2 : Rat) ^ (n.log2 : Int) ≤ n ∧ (n : Rat) < (2 : Rat) ^ ((n.log2 : Int) + 1) := by
  constructor
  · rw [zpow_natCast]
    exact_mod_cast Nat.log2_self_le hn
  · rw [← Nat.cast_succ, zpow_natCast]
    exact_mod_cast Nat.lt_log2_self

section Quotient

variable {n d : Rat} {p q : Int}

/-- A quotient reaches the power of two whose exponent is one less than the difference. -/
theorem two_zpow_le_div (hd : 0 < d) (hn : (2 : Rat) ^ p ≤ n) (hq : d < (2 : Rat) ^ (q + 1)) :
    (2 : Rat) ^ (p - q - 1) ≤ n / d :=
  calc (2 : Rat) ^ (p - q - 1) = (2 : Rat) ^ p / (2 : Rat) ^ (q + 1) := by
        rw [← zpow_sub₀ two_ne_zero, sub_sub]
    _ ≤ (2 : Rat) ^ p / d := div_le_div_of_nonneg_left (zpow_pos two_pos p).le hd hq.le
    _ ≤ n / d := div_le_div_of_nonneg_right hn hd.le

/-- A quotient is below the power of two whose exponent is one more than the difference. -/
theorem div_lt_two_zpow (hn : n < (2 : Rat) ^ (p + 1)) (hq : (2 : Rat) ^ q ≤ d) :
    n / d < (2 : Rat) ^ (p - q + 1) :=
  have hpos : (0 : Rat) < (2 : Rat) ^ q := zpow_pos two_pos q
  calc n / d < (2 : Rat) ^ (p + 1) / d := div_lt_div_of_pos_right hn (hpos.trans_le hq)
    _ ≤ (2 : Rat) ^ (p + 1) / (2 : Rat) ^ q :=
        div_le_div_of_nonneg_left (zpow_pos two_pos (p + 1)).le hpos hq
    _ = (2 : Rat) ^ (p - q + 1) := by rw [← zpow_sub₀ two_ne_zero, add_sub_right_comm]

end Quotient

/-- The exponent of a positive rational is its binary logarithm. -/
theorem floorLog2_eq_log (hx : 0 < x) : floorLog2 x = Int.log 2 x := by
  have hnum : 0 < x.num := Rat.num_pos.mpr hx
  have hquotient : (x.num.toNat : Rat) / x.den = x := by
    rw [← Int.cast_natCast, Int.toNat_of_nonneg hnum.le, Rat.num_div_den]
  obtain ⟨hnumLow, hnumHigh⟩ := two_zpow_log2 (n := x.num.toNat) (by omega)
  obtain ⟨hdenLow, hdenHigh⟩ := two_zpow_log2 (n := x.den) x.den_ne_zero
  -- The logarithm is the difference of those of numerator and denominator, or one less.
  have hlow := two_zpow_le_div (Nat.cast_pos.mpr x.den_pos) hnumLow hdenHigh
  have hhigh := div_lt_two_zpow hnumHigh hdenLow
  rw [hquotient] at hlow hhigh
  have hlow' := (Int.zpow_le_iff_le_log one_lt_two hx).mp hlow
  have hhigh' := (Int.lt_zpow_iff_log_lt one_lt_two hx).mp hhigh
  have hreached : (2 : Rat) ^ ((x.num.toNat.log2 : Int) - x.den.log2) ≤ x ↔
      (x.num.toNat.log2 : Int) - x.den.log2 ≤ Int.log 2 x :=
    Int.zpow_le_iff_le_log one_lt_two hx
  unfold floorLog2
  dsimp only
  split_ifs with h
  · rw [hreached] at h
    omega
  · rw [hreached] at h
    omega

/-- The step of a grid is positive. -/
theorem unit_pos (x : Rat) : 0 < unit x := zpow_pos two_pos _

/-- A larger rational has a grid that is as coarse or coarser. -/
theorem unitExponent_mono (hx : 0 < x) (h : x ≤ y) : unitExponent x ≤ unitExponent y := by
  have hlog : floorLog2 x ≤ floorLog2 y := by
    rw [floorLog2_eq_log hx, floorLog2_eq_log (hx.trans_le h)]
    exact Int.log_mono_right hx h
  unfold unitExponent
  omega

/-- A positive rational is rounded to a multiple of the step of its grid. -/
theorem nearest_of_pos (hx : 0 < x) : nearest x = roundEven (x / unit x) * unit x :=
  if_neg hx.ne'

/-- A power of two is a multiple of the step of a grid, if that is a smaller power. -/
theorem two_zpow_div_unit {e : Int} (he : unitExponent x ≤ e) :
    (2 : Rat) ^ e / unit x = ((2 ^ (e - unitExponent x).toNat : Int) : Rat) := by
  rw [unit, ← zpow_sub₀ two_ne_zero, Int.cast_pow, Int.cast_ofNat, ← zpow_natCast,
    Int.toNat_of_nonneg (Int.sub_nonneg.mpr he)]

/-- Rounding does not go above a power of two on the grid. -/
theorem nearest_le_two_zpow {e : Int} (hx : 0 < x) (he : unitExponent x ≤ e)
    (h : x ≤ (2 : Rat) ^ e) : nearest x ≤ (2 : Rat) ^ e := by
  have hround : roundEven (x / unit x) ≤ 2 ^ (e - unitExponent x).toNat := by
    rw [← roundEven_intCast (2 ^ (e - unitExponent x).toNat), ← two_zpow_div_unit he]
    exact roundEven_mono (div_le_div_of_nonneg_right h (unit_pos x).le)
  rw [nearest_of_pos hx, ← le_div_iff₀ (unit_pos x), two_zpow_div_unit he]
  exact Int.cast_le.mpr hround

/-- Rounding does not go below a power of two on the grid. -/
theorem two_zpow_le_nearest {e : Int} (hx : 0 < x) (he : unitExponent x ≤ e)
    (h : (2 : Rat) ^ e ≤ x) : (2 : Rat) ^ e ≤ nearest x := by
  have hround : 2 ^ (e - unitExponent x).toNat ≤ roundEven (x / unit x) := by
    rw [← roundEven_intCast (2 ^ (e - unitExponent x).toNat), ← two_zpow_div_unit he]
    exact roundEven_mono (div_le_div_of_nonneg_right h (unit_pos x).le)
  rw [nearest_of_pos hx, ← div_le_iff₀ (unit_pos x), two_zpow_div_unit he]
  exact Int.cast_le.mpr hround

/-- Rounding makes nothing negative. -/
theorem nearest_nonneg (hx : 0 ≤ x) : 0 ≤ nearest x := by
  rcases hx.eq_or_lt with rfl | hpos
  · exact (if_pos rfl).ge
  · have hround : 0 ≤ roundEven (x / unit x) := by
      rw [← roundEven_intCast 0]
      exact roundEven_mono (div_nonneg hx (unit_pos x).le)
    rw [nearest_of_pos hpos]
    exact mul_nonneg (Int.cast_nonneg hround) (unit_pos x).le

/-- Rounding keeps the order of rationals that are not negative. -/
theorem nearest_mono (hx : 0 ≤ x) (h : x ≤ y) : nearest x ≤ nearest y := by
  rcases hx.eq_or_lt with rfl | hpos
  · exact (if_pos rfl).le.trans (nearest_nonneg h)
  have hy : 0 < y := hpos.trans_le h
  rcases (unitExponent_mono hpos h).eq_or_lt with hunit | hunit
  · have heq : unit x = unit y := by rw [unit, unit, hunit]
    rw [nearest_of_pos hpos, nearest_of_pos hy, heq]
    have hround := roundEven_mono (div_le_div_of_nonneg_right h (unit_pos y).le)
    exact mul_le_mul_of_nonneg_right (Int.cast_le.mpr hround) (unit_pos y).le
  · -- The power of two at or below `y` is above `x`.
    have hlog : floorLog2 x < floorLog2 y := by
      unfold unitExponent at hunit
      omega
    have hx' : x ≤ (2 : Rat) ^ floorLog2 y := by
      rw [floorLog2_eq_log hpos] at hlog
      exact ((Int.lt_zpow_iff_log_lt one_lt_two hpos).mpr hlog).le
    have hy' : (2 : Rat) ^ floorLog2 y ≤ y := by
      rw [floorLog2_eq_log hy]
      exact Int.zpow_log_le_self one_lt_two hy
    have hexponent : unitExponent y ≤ floorLog2 y := by
      unfold unitExponent at hunit ⊢
      omega
    calc nearest x ≤ (2 : Rat) ^ floorLog2 y :=
          nearest_le_two_zpow hpos (hunit.le.trans hexponent) hx'
      _ ≤ nearest y := two_zpow_le_nearest hy hexponent hy'

/-! ## Next to one -/

/-- The largest number of the format below one. -/
def belowOne : Rat := 1 - (2 : Rat) ^ (-53 : Int)

theorem nearest_one : nearest 1 = 1 := by decide +kernel

theorem nearest_belowOne : nearest belowOne = belowOne := by decide +kernel

section Share

variable {n total : Nat} (h : n < total) (htotal : total ≤ 2 ^ 53)
include h htotal

/-- A share of less than all is not above that number, unless the total is larger than the
significand can count. -/
theorem div_le_belowOne : (n : Rat) / total ≤ belowOne := by
  have hpos : (0 : Rat) < total := Nat.cast_pos.mpr (by omega)
  have hmissing : (n : Rat) + 1 ≤ total := by exact_mod_cast h
  have hone : (total : Rat) * (2 : Rat) ^ (-53 : Int) ≤ 1 := by
    have hcast : (total : Rat) ≤ 2 ^ 53 := by exact_mod_cast htotal
    rw [zpow_neg, ← div_eq_mul_inv, div_le_one (by positivity)]
    exact_mod_cast hcast
  rw [div_le_iff₀ hpos, belowOne]
  linarith

/-- Nor is it when it is rounded. -/
theorem nearest_div_le_belowOne : nearest (n / total) ≤ belowOne :=
  nearest_belowOne ▸ nearest_mono (by positivity) (div_le_belowOne h htotal)

end Share

end Emend
