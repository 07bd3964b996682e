import EntitySchema.Number.Binary
import Mathlib.Algebra.Order.Field.Power
import Mathlib.Data.Int.Log
import Mathlib.Data.Rat.Floor
import Mathlib.Tactic.FieldSimp
import Mathlib.Tactic.Linarith
import Mathlib.Tactic.NormNum
import Mathlib.Tactic.Positivity

/-!
Ratios as rational numbers, and the numbers of a binary format. Scaling a ratio multiplies its
value, and the logarithm that rounding starts from is exact.
-/

namespace EntitySchema

def ratioValue (ratio : Nat × Nat) : ℚ := ratio.1 / ratio.2

theorem scaleRatio_snd_pos {base : Nat} {ratio : Nat × Nat} (exponent : Int) (positive : 0 < base)
    (denominator : 0 < ratio.2) : 0 < (scaleRatio base exponent ratio).2 := by
  unfold scaleRatio
  split
  · exact denominator
  · exact Nat.mul_pos denominator (Nat.pow_pos positive)

theorem scaleRatio_fst_pos {base : Nat} {ratio : Nat × Nat} (exponent : Int) (positive : 0 < base)
    (numerator : 0 < ratio.1) : 0 < (scaleRatio base exponent ratio).1 := by
  unfold scaleRatio
  split
  · exact Nat.mul_pos numerator (Nat.pow_pos positive)
  · exact numerator

theorem ratioValue_scaleRatio {base : Nat} (exponent : Int) (ratio : Nat × Nat)
    (positive : 0 < base) :
    ratioValue (scaleRatio base exponent ratio) = ratioValue ratio * (base : ℚ) ^ exponent := by
  have nonzero : (base : ℚ) ≠ 0 := by positivity
  unfold scaleRatio ratioValue
  split
  next whole =>
    obtain ⟨power, rfl⟩ := Int.eq_ofNat_of_zero_le whole
    simp only [Nat.cast_mul, Nat.pow_eq, Nat.cast_pow, Int.natAbs_natCast, zpow_natCast]
    ring
  next fraction =>
    obtain ⟨power, rfl⟩ := Int.exists_eq_neg_ofNat (by omega : exponent ≤ 0)
    simp only [Nat.cast_mul, Nat.pow_eq, Nat.cast_pow, Int.natAbs_neg, Int.natAbs_natCast,
      zpow_neg, zpow_natCast]
    field_simp

theorem one_le_ratioValue {ratio : Nat × Nat} (denominator : 0 < ratio.2) :
    1 ≤ ratioValue ratio ↔ ratio.2 ≤ ratio.1 := by
  have positive : (0 : ℚ) < ratio.2 := by exact_mod_cast denominator
  rw [ratioValue, le_div_iff₀ positive, one_mul, Nat.cast_le]

theorem scaleRatio_fits {base : Nat} (positive : 0 < base) {ratio : Nat × Nat}
    (denominator : 0 < ratio.2) (exponent : Int) :
    (scaleRatio base (-exponent) ratio).2 ≤ (scaleRatio base (-exponent) ratio).1 ↔
      (base : ℚ) ^ exponent ≤ ratioValue ratio := by
  have baseCast : (0 : ℚ) < base := by exact_mod_cast positive
  rw [← one_le_ratioValue (scaleRatio_snd_pos _ positive denominator),
    ratioValue_scaleRatio _ _ positive, zpow_neg, ← div_eq_mul_inv, one_le_div₀ (by positivity)]

namespace Binary

theorem log2_bounds {number : Nat} (positive : 0 < number) :
    (2 : ℚ) ^ (Nat.log2 number : Int) ≤ number ∧
      (number : ℚ) < 2 ^ (Nat.log2 number + 1 : Int) := by
  have lower := Nat.log2_self_le (Nat.ne_of_gt positive)
  have upper := @Nat.lt_log2_self number
  refine ⟨?_, ?_⟩
  · rw [zpow_natCast]
    exact_mod_cast lower
  · rw [← Nat.cast_succ, zpow_natCast]
    exact_mod_cast upper

/-- The estimate from the lengths of the two numbers is right or one too large. -/
theorem floorLog2_eq_log {numerator denominator : Nat} (numeratorPositive : 0 < numerator)
    (denominatorPositive : 0 < denominator) :
    floorLog2 numerator denominator = Int.log 2 (ratioValue (numerator, denominator)) := by
  have positive : 0 < ratioValue (numerator, denominator) := by
    unfold ratioValue
    positivity
  obtain ⟨numeratorLower, numeratorUpper⟩ := log2_bounds numeratorPositive
  obtain ⟨denominatorLower, denominatorUpper⟩ := log2_bounds denominatorPositive
  generalize estimated : (Nat.log2 numerator : Int) - Nat.log2 denominator = estimate
  have lower : estimate - 1 ≤ Int.log 2 (ratioValue (numerator, denominator)) := by
    rw [← Int.zpow_le_iff_le_log (by norm_num) positive, ratioValue, le_div_iff₀ (by positivity)]
    calc (2 : ℚ) ^ (estimate - 1) * denominator
        ≤ 2 ^ (estimate - 1) * 2 ^ (Nat.log2 denominator + 1 : Int) := by gcongr
      _ = 2 ^ (Nat.log2 numerator : Int) := by
          rw [← zpow_add₀ (by norm_num)]
          congr 1
          omega
      _ ≤ numerator := numeratorLower
  have upper : Int.log 2 (ratioValue (numerator, denominator)) < estimate + 1 := by
    rw [← Int.lt_zpow_iff_log_lt (by norm_num) positive, ratioValue, div_lt_iff₀ (by positivity)]
    calc (numerator : ℚ) < 2 ^ (Nat.log2 numerator + 1 : Int) := numeratorUpper
      _ = 2 ^ (estimate + 1) * 2 ^ (Nat.log2 denominator : Int) := by
          rw [← zpow_add₀ (by norm_num)]
          congr 1
          omega
      _ ≤ 2 ^ (estimate + 1) * denominator := by gcongr
  have fits : (scaleRatio 2 (-estimate) (numerator, denominator)).2 ≤
      (scaleRatio 2 (-estimate) (numerator, denominator)).1 ↔
        estimate ≤ Int.log 2 (ratioValue (numerator, denominator)) := by
    rw [scaleRatio_fits (by norm_num) denominatorPositive,
      Int.zpow_le_iff_le_log (by norm_num) positive]
  rw [floorLog2, estimated, if_congr fits rfl rfl]
  split <;> omega

end Binary

namespace BinaryFormat

def Holds (format : BinaryFormat) (mantissa : Nat) (exponent : Int) : Prop :=
  mantissa < 2 ^ (format.precision - 1) ∧ exponent = format.leastExponent ∨
    2 ^ (format.precision - 1) ≤ mantissa ∧ mantissa < 2 ^ format.precision ∧
      format.leastExponent ≤ exponent ∧ exponent ≤ format.greatestExponent

def Proper (format : BinaryFormat) : Prop :=
  1 ≤ format.precision ∧ format.leastExponent ≤ format.greatestExponent

theorem double_proper : double.Proper := ⟨by decide, by decide⟩

variable {format : BinaryFormat} {mantissa : Nat} {exponent : Int}

theorem Proper.two_pow (proper : format.Proper) :
    2 ^ format.precision = 2 * 2 ^ (format.precision - 1) := by
  rw [← Nat.pow_succ', Nat.succ_eq_add_one, Nat.sub_add_cancel proper.1]

theorem Proper.two_pow_div_two (proper : format.Proper) :
    2 ^ format.precision / 2 = 2 ^ (format.precision - 1) := by
  rw [proper.two_pow, Nat.mul_div_cancel_left _ (by norm_num)]

namespace Holds

theorem lt_two_pow (holds : format.Holds mantissa exponent) : mantissa < 2 ^ format.precision := by
  rcases holds with ⟨below, _⟩ | ⟨_, below, _, _⟩
  · exact Nat.lt_of_lt_of_le below (Nat.pow_le_pow_right (by norm_num) (by omega))
  · exact below

theorem least_le (holds : format.Holds mantissa exponent) : format.leastExponent ≤ exponent := by
  rcases holds with ⟨_, same⟩ | ⟨_, _, least, _⟩
  · exact same.ge
  · exact least

theorem le_greatest (holds : format.Holds mantissa exponent) (proper : format.Proper) :
    exponent ≤ format.greatestExponent := by
  rcases holds with ⟨_, rfl⟩ | ⟨_, _, _, greatest⟩
  · exact proper.2
  · exact greatest

end Holds

end BinaryFormat

namespace Binary

theorem roundQuotient_bounds (numerator denominator : Nat) :
    numerator / denominator ≤ roundQuotient numerator denominator ∧
      roundQuotient numerator denominator ≤ numerator / denominator + 1 := by
  unfold roundQuotient
  dsimp only
  split <;> omega

end Binary

end EntitySchema
