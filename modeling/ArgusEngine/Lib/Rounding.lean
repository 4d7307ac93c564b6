import Mathlib.Data.Int.Log
import Mathlib.Data.Rat.Floor

/-!
# Rounding to a binary floating-point format

Finite values are rationals: an operation of the format is the exact one followed by `round`, to the
nearest value and on a tie to the even one. Results beyond the largest value of the format are not
modelled.

* `halfEven`: the nearest integer;
* `FloatFormat.round`, with `binary32` and `binary64`;
* **`FloatFormat.round_mono`**: rounding is monotone.
-/

/-- The integer nearest to `x`, the even one of two. -/
def halfEven (x : ℚ) : ℤ :=
  if x - ⌊x⌋ < 1 / 2 then ⌊x⌋
  else if 1 / 2 < x - ⌊x⌋ then ⌊x⌋ + 1
  else if ⌊x⌋ % 2 = 0 then ⌊x⌋ else ⌊x⌋ + 1

theorem floor_le_halfEven (x : ℚ) : ⌊x⌋ ≤ halfEven x := by
  unfold halfEven
  split_ifs <;> omega

theorem halfEven_le (x : ℚ) : halfEven x ≤ ⌊x⌋ + 1 := by
  unfold halfEven
  split_ifs <;> omega

theorem halfEven_mono {x y : ℚ} (hxy : x ≤ y) : halfEven x ≤ halfEven y := by
  rcases (Int.floor_mono hxy).lt_or_eq with hlt | heq
  · -- an integer lies between them
    have hx := halfEven_le x
    have hy := floor_le_halfEven y
    omega
  · have hfract : x - ⌊x⌋ ≤ y - ⌊y⌋ := by
      rw [heq]
      exact sub_le_sub_right hxy _
    unfold halfEven
    rw [heq] at hfract ⊢
    split_ifs <;> first | omega | (exfalso; linarith)

theorem halfEven_nonneg {x : ℚ} (h : 0 ≤ x) : 0 ≤ halfEven x :=
  (Int.floor_nonneg.mpr h).trans (floor_le_halfEven x)

theorem abs_halfEven_sub_le (x : ℚ) : |(halfEven x : ℚ) - x| ≤ 1 / 2 := by
  have hlt := Int.lt_floor_add_one x
  have hle := Int.floor_le x
  rw [abs_le]
  unfold halfEven
  split_ifs <;> push_cast <;> constructor <;> linarith

theorem halfEven_natCast (n : ℕ) : halfEven n = n := by simp [halfEven]

theorem zpow_two_pos (e : ℤ) : (0 : ℚ) < 2 ^ e := zpow_pos (by norm_num) e

theorem pow_mul_zpow_two (n : ℕ) (e : ℤ) : (((2 ^ n : ℕ) : ℤ) : ℚ) * 2 ^ e = 2 ^ (e + n) := by
  rw [zpow_add₀ (by norm_num), zpow_natCast, mul_comm]
  norm_cast

/-- A binary format: the explicit bits of a mantissa and the least exponent. -/
structure FloatFormat where
  mantissaBits : ℕ
  minExponent : ℤ

def binary32 : FloatFormat := ⟨23, -149⟩

def binary64 : FloatFormat := ⟨52, -1074⟩

namespace FloatFormat

variable (f : FloatFormat)

/-- The exponent of the last place of `x`. -/
def exponent (x : ℚ) : ℤ := max (Int.log 2 x - f.mantissaBits) f.minExponent

def roundAbs (x : ℚ) : ℚ := halfEven (x / 2 ^ f.exponent x) * 2 ^ f.exponent x

/-- The value of the format nearest to `x`. -/
def round (x : ℚ) : ℚ := if 0 ≤ x then f.roundAbs x else -f.roundAbs (-x)

theorem roundAbs_nonneg {x : ℚ} (h : 0 ≤ x) : 0 ≤ f.roundAbs x := by
  have hpos := zpow_two_pos (f.exponent x)
  exact mul_nonneg (Int.cast_nonneg (halfEven_nonneg (div_nonneg h hpos.le))) hpos.le

theorem roundAbs_le (x : ℚ) : f.roundAbs x ≤ 2 ^ (f.exponent x + (f.mantissaBits + 1)) := by
  have hpos := zpow_two_pos (f.exponent x)
  have hlog : Int.log 2 x + 1 ≤ f.exponent x + (f.mantissaBits + 1) := by
    have hmax := le_max_left (Int.log 2 x - f.mantissaBits) f.minExponent
    unfold exponent
    omega
  have hlt : x / 2 ^ f.exponent x < ((2 ^ (f.mantissaBits + 1) : ℕ) : ℤ) := by
    rw [div_lt_iff₀ hpos]
    calc x < (2 : ℕ) ^ (Int.log 2 x + 1) := Int.lt_zpow_succ_log_self (by decide) x
      _ ≤ (2 : ℚ) ^ (f.exponent x + (f.mantissaBits + 1)) := by
        push_cast
        exact zpow_le_zpow_right₀ (by norm_num) hlog
      _ = _ := by rw [pow_mul_zpow_two, Nat.cast_succ]
  have hround : halfEven (x / 2 ^ f.exponent x) ≤ ((2 ^ (f.mantissaBits + 1) : ℕ) : ℤ) := by
    have hfloor := Int.floor_lt.mpr hlt
    have hle := halfEven_le (x / 2 ^ f.exponent x)
    omega
  calc f.roundAbs x ≤ ((2 ^ (f.mantissaBits + 1) : ℕ) : ℤ) * 2 ^ f.exponent x :=
        mul_le_mul_of_nonneg_right (Int.cast_le.mpr hround) hpos.le
    _ = _ := by rw [pow_mul_zpow_two, Nat.cast_succ]

/-- A value whose exponent is not the least one rounds to at least the power at its first bit. -/
theorem le_roundAbs {x : ℚ} (hx : 0 < x) (h : f.minExponent < f.exponent x) :
    2 ^ (f.exponent x + f.mantissaBits) ≤ f.roundAbs x := by
  have hpos := zpow_two_pos (f.exponent x)
  have hlog : f.exponent x + f.mantissaBits = Int.log 2 x := by
    unfold exponent at h ⊢
    omega
  have hle : (((2 ^ f.mantissaBits : ℕ) : ℤ) : ℚ) ≤ x / 2 ^ f.exponent x := by
    rw [le_div_iff₀ hpos]
    calc (((2 ^ f.mantissaBits : ℕ) : ℤ) : ℚ) * 2 ^ f.exponent x = 2 ^
      (f.exponent x + f.mantissaBits) :=
          pow_mul_zpow_two _ _
      _ = (2 : ℕ) ^ Int.log 2 x := by
          rw [hlog]
          norm_cast
      _ ≤ x := Int.zpow_log_le_self (by decide) hx
  have hround : ((2 ^ f.mantissaBits : ℕ) : ℤ) ≤ halfEven (x / 2 ^ f.exponent x) :=
    (Int.le_floor.mpr hle).trans (floor_le_halfEven _)
  calc (2 : ℚ) ^ (f.exponent x + f.mantissaBits) =
    ((2 ^ f.mantissaBits : ℕ) : ℤ) * 2 ^ f.exponent x :=
        (pow_mul_zpow_two _ _).symm
    _ ≤ f.roundAbs x := mul_le_mul_of_nonneg_right (Int.cast_le.mpr hround) hpos.le

theorem roundAbs_mono {x y : ℚ} (hx : 0 ≤ x) (hxy : x ≤ y) : f.roundAbs x ≤ f.roundAbs y := by
  rcases hx.eq_or_lt with rfl | hpos
  · have hzero : f.roundAbs 0 = 0 := by
      rw [roundAbs, zero_div, show halfEven 0 = 0 by simp [halfEven], Int.cast_zero, zero_mul]
    rw [hzero]
    exact f.roundAbs_nonneg hxy
  have hlog := Int.log_mono_right (b := 2) hpos hxy
  have hexp : f.exponent x ≤ f.exponent y := max_le_max_right _ (by omega)
  rcases hexp.lt_or_eq with hlt | heq
  · -- a power of two lies between the roundings
    have hmin : f.minExponent < f.exponent y := (le_max_right _ _).trans_lt hlt
    calc f.roundAbs x ≤ 2 ^ (f.exponent x + (f.mantissaBits + 1)) := f.roundAbs_le x
      _ ≤ 2 ^ (f.exponent y + f.mantissaBits) := zpow_le_zpow_right₀ (by norm_num) (by omega)
      _ ≤ f.roundAbs y := f.le_roundAbs (hpos.trans_le hxy) hmin
  · have hscale := zpow_two_pos (f.exponent y)
    rw [roundAbs, roundAbs, heq]
    exact mul_le_mul_of_nonneg_right
      (Int.cast_le.mpr (halfEven_mono (div_le_div_of_nonneg_right hxy hscale.le))) hscale.le

/-- **Rounding is monotone.** -/
theorem round_mono : Monotone f.round := by
  intro x y hxy
  unfold round
  split_ifs with hx hy hy
  · exact f.roundAbs_mono hx hxy
  · exact absurd (hx.trans hxy) hy
  · have hneg : 0 ≤ f.roundAbs (-x) := f.roundAbs_nonneg (by linarith)
    have hnonneg := f.roundAbs_nonneg hy
    linarith
  · have hneg : f.roundAbs (-y) ≤ f.roundAbs (-x) := f.roundAbs_mono (by linarith) (neg_le_neg hxy)
    linarith

theorem round_nonneg {x : ℚ} (h : 0 ≤ x) : 0 ≤ f.round x := by
  rw [round, if_pos h]
  exact f.roundAbs_nonneg h

end FloatFormat
