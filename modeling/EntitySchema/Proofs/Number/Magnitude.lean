import EntitySchema.Number.Decimal
import EntitySchema.Proofs.Number.Rounding

/-!
Powers of two next to powers of ten. The estimate of a decimal logarithm from the binary one is
never off by more than one, so the magnitude of a number is exact.
-/

namespace EntitySchema

section Powers

theorem zpow_le_zpow_of_pow_le {low high : ℚ} (lowOne : 1 ≤ low) (highPositive : 0 < high)
    {more fewer : Nat} (nonzero : fewer ≠ 0) (basic : low ^ more ≤ high ^ fewer)
    {first second : Int} (nonnegative : 0 ≤ second) (fits : fewer * first ≤ more * second) :
    low ^ first ≤ high ^ second := by
  have lowPositive : 0 < low := by linarith
  refine (pow_le_pow_iff_left₀ (by positivity) (by positivity) nonzero).mp ?_
  calc (low ^ first) ^ fewer = low ^ (fewer * first) := by
        rw [← zpow_natCast, ← zpow_mul, mul_comm]
    _ ≤ low ^ (more * second) := zpow_le_zpow_right₀ lowOne fits
    _ = (low ^ more) ^ second := by rw [zpow_mul, zpow_natCast]
    _ ≤ (high ^ fewer) ^ second := zpow_le_zpow_left₀ nonnegative (by positivity) basic
    _ = (high ^ second) ^ fewer := by
        rw [← zpow_natCast, ← zpow_mul, mul_comm, zpow_mul, zpow_natCast]

theorem two_zpow_le_ten_zpow {first second : Int} (fits : 28 * first ≤ 93 * second)
    (tight : 59 * first ≤ 196 * second) : (2 : ℚ) ^ first ≤ 10 ^ second := by
  have upper : (2 : ℚ) ^ 93 ≤ 10 ^ 28 := by norm_num
  have lower : (10 : ℚ) ^ 59 ≤ 2 ^ 196 := by norm_num
  by_cases nonnegative : 0 ≤ second
  · exact zpow_le_zpow_of_pow_le (by norm_num) (by norm_num) (by norm_num) upper nonnegative fits
  · have inverse : (10 : ℚ) ^ (-second) ≤ 2 ^ (-first) :=
      zpow_le_zpow_of_pow_le (by norm_num) (by norm_num) (by norm_num) lower (by omega) (by omega)
    rw [zpow_neg, zpow_neg] at inverse
    exact (inv_le_inv₀ (by positivity) (by positivity)).mp inverse

theorem ten_zpow_le_two_zpow {first second : Int} (fits : 196 * first ≤ 59 * second)
    (tight : 93 * first ≤ 28 * second) : (10 : ℚ) ^ first ≤ 2 ^ second := by
  have mirrored : (2 : ℚ) ^ (-second) ≤ 10 ^ (-first) :=
    two_zpow_le_ten_zpow (by omega) (by omega)
  rw [zpow_neg, zpow_neg] at mirrored
  exact (inv_le_inv₀ (by positivity) (by positivity)).mp mirrored

end Powers

namespace Decimal

theorem floorLog10_eq_log {ratio : Nat × Nat} (numerator : 0 < ratio.1) (denominator : 0 < ratio.2)
    (low : -10000 ≤ Int.log 2 (ratioValue ratio)) (high : Int.log 2 (ratioValue ratio) ≤ 10000) :
    floorLog10 ratio = Int.log 10 (ratioValue ratio) := by
  have positive : 0 < ratioValue ratio := by
    unfold ratioValue
    positivity
  have fits (exponent : Int) : (scaleRatio 10 (-exponent) ratio).2 ≤
      (scaleRatio 10 (-exponent) ratio).1 ↔ exponent ≤ Int.log 10 (ratioValue ratio) := by
    rw [scaleRatio_fits (by norm_num) denominator, Int.zpow_le_iff_le_log (by norm_num) positive]
  have binaryLower : (2 : ℚ) ^ Int.log 2 (ratioValue ratio) ≤ ratioValue ratio :=
    Int.zpow_log_le_self (by norm_num) positive
  have binaryUpper : ratioValue ratio < (2 : ℚ) ^ (Int.log 2 (ratioValue ratio) + 1) :=
    Int.lt_zpow_succ_log_self (by norm_num) _
  have same : ratioValue (ratio.1, ratio.2) = ratioValue ratio := rfl
  simp only [floorLog10, decide_eq_true_eq, fits]
  rw [Binary.floorLog2_eq_log numerator denominator, same]
  generalize Int.log 2 (ratioValue ratio) = binary at *
  have lower : binary * 30103 / 100000 - 1 ≤ Int.log 10 (ratioValue ratio) := by
    rw [← Int.zpow_le_iff_le_log (by norm_num) positive]
    exact (ten_zpow_le_two_zpow (by omega) (by omega)).trans binaryLower
  have upper : Int.log 10 (ratioValue ratio) < binary * 30103 / 100000 + 2 := by
    rw [← Int.lt_zpow_iff_log_lt (by norm_num) positive]
    exact binaryUpper.trans_le (two_zpow_le_ten_zpow (by omega) (by omega))
  split_ifs <;> omega

end Decimal

end EntitySchema
