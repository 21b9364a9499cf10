import Mathlib.Data.Int.Log
import Mathlib.Data.Rat.Floor
import Mathlib.Algebra.Order.Field.Power
import Mathlib.Tactic.FieldSimp
import Mathlib.Tactic.Linarith
import Mathlib.Tactic.Positivity
import Mathlib.Tactic.Ring

/-!
# Rounding to a binary precision

Binary floating-point numbers are rationals here, and an operation of a format is the exact rational
operation followed by `roundToPrecision`: the value is measured in units of its last place, that
number of units is rounded to the nearest integer, and a tie goes to the even one. The exponent
range is not bounded, so the definition agrees with a format wherever the result neither overflows
nor is subnormal.

`abs_roundToPrecision_sub_le` bounds the rounding error by half a unit, `roundToPrecision_le` turns
that into an upper bound below a power of two, and `le_one_sub_of_representable` says how close to
one a number of the format below one can be. `truncate` is the conversion to an integer that drops
the fraction.
-/

set_option autoImplicit false
set_option relaxedAutoImplicit false

namespace ImageApp.Foundations.BinaryRounding

/-- The nearest integer, a tie going to the even one. -/
def roundHalfEven (value : ℚ) : ℤ :=
  if value - ⌊value⌋ < 1 / 2 then ⌊value⌋
  else if 1 / 2 < value - ⌊value⌋ then ⌊value⌋ + 1
  else if Even ⌊value⌋ then ⌊value⌋
  else ⌊value⌋ + 1

/-- The unit in the last place of a value that is kept with `precision` binary digits. -/
def unitInLastPlace (precision : ℕ) (value : ℚ) : ℚ :=
  2 ^ (Int.log 2 |value| + 1 - precision)

/-- The nearest number with `precision` binary digits, a tie going to the even last digit. -/
def roundToPrecision (precision : ℕ) (value : ℚ) : ℚ :=
  if value = 0 then 0
  else roundHalfEven (value / unitInLastPlace precision value) * unitInLastPlace precision value

/-- The value is a number with `precision` binary digits. -/
def Representable (precision : ℕ) (value : ℚ) : Prop :=
  roundToPrecision precision value = value

/-- The conversion to an integer that drops the fraction. -/
def truncate (value : ℚ) : ℤ :=
  if 0 ≤ value then ⌊value⌋ else ⌈value⌉

/-! ### The nearest integer -/

/-- Rounding to the nearest integer moves a value by at most one half. -/
theorem abs_roundHalfEven_sub_le (value : ℚ) : |(roundHalfEven value : ℚ) - value| ≤ 1 / 2 := by
  have hfloor : (⌊value⌋ : ℚ) ≤ value := Int.floor_le value
  have hnext : value < ⌊value⌋ + 1 := Int.lt_floor_add_one value
  unfold roundHalfEven
  split_ifs with hbelow habove heven <;> rw [abs_le] <;> push_cast <;> constructor <;> linarith

/-- Rounding to the nearest integer keeps a nonnegative value nonnegative. -/
theorem roundHalfEven_nonneg {value : ℚ} (hvalue : 0 ≤ value) : 0 ≤ roundHalfEven value := by
  have hfloor : 0 ≤ ⌊value⌋ := Int.floor_nonneg.mpr hvalue
  unfold roundHalfEven
  split_ifs <;> omega

/-- Integers are their own nearest integer. -/
@[simp] theorem roundHalfEven_intCast (value : ℤ) : roundHalfEven (value : ℚ) = value := by
  simp [roundHalfEven]

/-! ### The unit in the last place -/

theorem unitInLastPlace_pos (precision : ℕ) (value : ℚ) : 0 < unitInLastPlace precision value :=
  zpow_pos (by norm_num) _

/-- A positive value below a power of two has its unit below that power by the precision. -/
theorem unitInLastPlace_le {precision : ℕ} {value : ℚ} {exponent : ℤ} (hpos : 0 < value)
    (hlt : value < 2 ^ exponent) :
    unitInLastPlace precision value ≤ 2 ^ (exponent - precision) := by
  have hlog : Int.log 2 value < exponent :=
    (Int.lt_zpow_iff_log_lt one_lt_two hpos).mp (by exact_mod_cast hlt)
  rw [unitInLastPlace, abs_of_pos hpos]
  exact zpow_le_zpow_right₀ (by norm_num) (by omega)

/-- A positive value is below `2 ^ precision` units. -/
theorem lt_pow_mul_unitInLastPlace (precision : ℕ) {value : ℚ} (hpos : 0 < value) :
    value < 2 ^ precision * unitInLastPlace precision value := by
  have hlog : value < ((2 : ℕ) : ℚ) ^ (Int.log 2 value + 1) :=
    Int.lt_zpow_succ_log_self one_lt_two value
  have hsplit : (2 : ℚ) ^ (Int.log 2 value + 1) =
      2 ^ precision * unitInLastPlace precision value := by
    rw [unitInLastPlace, abs_of_pos hpos, ← zpow_natCast, ← zpow_add₀ (by norm_num)]
    congr 1
    omega
  rw [← hsplit]
  exact_mod_cast hlog

/-! ### The rounded value -/

@[simp] theorem roundToPrecision_zero (precision : ℕ) : roundToPrecision precision 0 = 0 :=
  if_pos rfl

/-- One is a number of every format that keeps a digit. -/
theorem representable_one {precision : ℕ} (hprecision : 0 < precision) :
    Representable precision 1 := by
  have hunit : unitInLastPlace precision 1 = (2 ^ (precision - 1))⁻¹ := by
    rw [unitInLastPlace, abs_one, Int.log_one_right, ← zpow_natCast, ← zpow_neg]
    congr 1
    omega
  have hcount : 1 / unitInLastPlace precision 1 = ((2 ^ (precision - 1) : ℤ) : ℚ) := by
    rw [hunit, one_div, inv_inv]
    norm_cast
  rw [Representable, roundToPrecision, if_neg one_ne_zero, hcount, roundHalfEven_intCast, ← hcount,
    one_div_mul_cancel (unitInLastPlace_pos precision 1).ne']

/-- Rounding moves a value by at most half a unit in its last place. -/
theorem abs_roundToPrecision_sub_le (precision : ℕ) (value : ℚ) :
    |roundToPrecision precision value - value| ≤ unitInLastPlace precision value / 2 := by
  have hunit := unitInLastPlace_pos precision value
  by_cases hzero : value = 0
  · rw [hzero, roundToPrecision_zero, sub_zero, abs_zero]
    exact (half_pos (unitInLastPlace_pos precision 0)).le
  · have hscale : roundToPrecision precision value - value =
        ((roundHalfEven (value / unitInLastPlace precision value) : ℚ) -
          value / unitInLastPlace precision value) * unitInLastPlace precision value := by
      rw [roundToPrecision, if_neg hzero]
      field_simp
    rw [hscale, abs_mul, abs_of_pos hunit]
    calc |(roundHalfEven (value / unitInLastPlace precision value) : ℚ) -
            value / unitInLastPlace precision value| * unitInLastPlace precision value
        ≤ 1 / 2 * unitInLastPlace precision value :=
          mul_le_mul_of_nonneg_right (abs_roundHalfEven_sub_le _) hunit.le
      _ = unitInLastPlace precision value / 2 := by ring

/-- Rounding keeps a nonnegative value nonnegative. -/
theorem roundToPrecision_nonneg (precision : ℕ) {value : ℚ} (hvalue : 0 ≤ value) :
    0 ≤ roundToPrecision precision value := by
  have hunit := unitInLastPlace_pos precision value
  unfold roundToPrecision
  split_ifs with hzero
  · exact le_refl 0
  · have hrounded : 0 ≤ roundHalfEven (value / unitInLastPlace precision value) :=
      roundHalfEven_nonneg (div_nonneg hvalue hunit.le)
    have hcast : (0 : ℚ) ≤ roundHalfEven (value / unitInLastPlace precision value) := by
      exact_mod_cast hrounded
    exact mul_nonneg hcast hunit.le

/-- A value below a power of two grows by at most half of that power's unit when it is rounded. -/
theorem roundToPrecision_le {precision : ℕ} {value : ℚ} {exponent : ℤ} (hvalue : 0 ≤ value)
    (hlt : value < 2 ^ exponent) :
    roundToPrecision precision value ≤ value + 2 ^ (exponent - precision) / 2 := by
  rcases hvalue.eq_or_lt with hzero | hpos
  · rw [← hzero, roundToPrecision_zero]
    positivity
  · have herror := (abs_le.mp (abs_roundToPrecision_sub_le precision value)).2
    have hunit := @unitInLastPlace_le precision _ _ hpos hlt
    linarith

/-- A number of the format that is below one is below it by at least one unit of the largest such
number. -/
theorem le_one_sub_of_representable {precision : ℕ} {value : ℚ} (hpos : 0 < value)
    (hlt : value < 1) (hvalue : Representable precision value) :
    value ≤ 1 - (2 ^ precision)⁻¹ := by
  set unit := unitInLastPlace precision value with hunitDef
  set count := roundHalfEven (value / unit) with hcountDef
  have hunit : 0 < unit := unitInLastPlace_pos precision value
  have hcount : (count : ℚ) * unit = value := by
    have hround := hvalue
    rw [Representable, roundToPrecision, if_neg hpos.ne'] at hround
    exact hround
  have hpow : (0 : ℚ) < 2 ^ precision := by positivity
  have hunitLe : unit ≤ (2 ^ precision)⁻¹ := by
    have hle := @unitInLastPlace_le precision _ 0 hpos (by rwa [zpow_zero])
    rwa [zero_sub, zpow_neg, zpow_natCast] at hle
  have hcountLt : (count : ℚ) < 2 ^ precision := by
    have hlt := lt_pow_mul_unitInLastPlace precision hpos
    rw [← hcount] at hlt
    exact lt_of_mul_lt_mul_right (by rw [hcount] at hlt ⊢; exact hlt) hunit.le
  have hcountLe : (count : ℚ) ≤ 2 ^ precision - 1 := by
    have hint : count < 2 ^ precision := by exact_mod_cast hcountLt
    have hle : count ≤ 2 ^ precision - 1 := by omega
    exact_mod_cast hle
  calc value = count * unit := hcount.symm
    _ ≤ (2 ^ precision - 1) * unit := mul_le_mul_of_nonneg_right hcountLe hunit.le
    _ ≤ (2 ^ precision - 1) * (2 ^ precision)⁻¹ := by
        apply mul_le_mul_of_nonneg_left hunitLe
        have hone : (1 : ℚ) ≤ 2 ^ precision := one_le_pow₀ (by norm_num)
        linarith
    _ = 1 - (2 ^ precision)⁻¹ := by
        field_simp

/-! ### Truncation -/

theorem truncate_nonneg {value : ℚ} (hvalue : 0 ≤ value) : 0 ≤ truncate value := by
  rw [truncate, if_pos hvalue]
  exact Int.floor_nonneg.mpr hvalue

/-- Truncation does not increase a nonnegative value. -/
theorem truncate_le {value : ℚ} (hvalue : 0 ≤ value) : (truncate value : ℚ) ≤ value := by
  rw [truncate, if_pos hvalue]
  exact Int.floor_le value

/-- Integers are their own truncation. -/
@[simp] theorem truncate_intCast (value : ℤ) : truncate (value : ℚ) = value := by
  unfold truncate
  split_ifs <;> simp

/-- A value from zero to below one truncates to zero. -/
theorem truncate_eq_zero {value : ℚ} (hvalue : 0 ≤ value) (hlt : value < 1) :
    truncate value = 0 := by
  rw [truncate, if_pos hvalue, Int.floor_eq_zero_iff]
  exact ⟨hvalue, hlt⟩

end ImageApp.Foundations.BinaryRounding
