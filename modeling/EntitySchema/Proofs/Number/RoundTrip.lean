import EntitySchema.Proofs.Number.Digits
import EntitySchema.Proofs.Number.Magnitude
import EntitySchema.Proofs.Number.Nearest

/-!
Doubles as text. Every finite double is written as a decimal that reads back as the same double,
whether its shortest form was found or all its digits were needed.
-/

namespace EntitySchema

namespace Decimal

def magnitudeValue (decimal : Decimal) : ℚ := decimal.coefficient * 10 ^ decimal.exponent

theorem size_bounds {decimal : Decimal} (nonzero : decimal.coefficient ≠ 0) :
    (10 : ℚ) ^ (digitCount decimal.coefficient + decimal.exponent - 1) ≤ decimal.magnitudeValue ∧
      decimal.magnitudeValue < 10 ^ (digitCount decimal.coefficient + decimal.exponent) := by
  obtain ⟨lower, upper⟩ := digitCount_bounds (Nat.pos_of_ne_zero nonzero)
  have counted := digitCount_pos decimal.coefficient
  constructor
  · calc (10 : ℚ) ^ (digitCount decimal.coefficient + decimal.exponent - 1)
        = 10 ^ (digitCount decimal.coefficient - 1) * 10 ^ decimal.exponent := by
          rw [← zpow_natCast, ← zpow_add₀ (by norm_num)]
          congr 1
          omega
      _ ≤ decimal.magnitudeValue := by
          unfold magnitudeValue
          gcongr
          exact_mod_cast lower
  · calc decimal.magnitudeValue
        < 10 ^ digitCount decimal.coefficient * 10 ^ decimal.exponent := by
          unfold magnitudeValue
          gcongr
          exact_mod_cast upper
      _ = 10 ^ (digitCount decimal.coefficient + decimal.exponent) := by
          rw [← zpow_natCast, ← zpow_add₀ (by norm_num)]

theorem ratioValue_magnitude (decimal : Decimal) :
    ratioValue (scaleRatio 10 decimal.exponent (decimal.coefficient, 1)) =
      decimal.magnitudeValue := by
  rw [ratioValue_scaleRatio _ _ (by norm_num), magnitudeValue, ratioValue]
  norm_num

theorem size_of_roundsTo {decimal : Decimal} (present : decimal.coefficient ≠ 0) {mantissa : Nat}
    {exponent : Int} (nonzero : mantissa ≠ 0)
    (rounds : BinaryFormat.double.RoundsTo decimal.magnitudeValue mantissa exponent) :
    -400 ≤ (digitCount decimal.coefficient : Int) + decimal.exponent ∧
      (digitCount decimal.coefficient : Int) + decimal.exponent ≤ 400 := by
  have one : (1 : ℚ) ≤ mantissa := by exact_mod_cast Nat.one_le_iff_ne_zero.mpr nonzero
  have least : -1074 ≤ exponent := rounds.exponent_bounds.2
  have greatest : exponent ≤ 971 := rounds.inside
  obtain ⟨lower, upper⟩ := size_bounds present
  constructor
  · have half : (2 : ℚ) ^ (exponent - 1) ≤ decimal.magnitudeValue := by
      calc (2 : ℚ) ^ (exponent - 1) = 1 / 2 * 2 ^ exponent := by
            rw [zpow_sub_one₀ (by norm_num)]
            ring
        _ ≤ ((mantissa : ℚ) - 1 / 2) * 2 ^ exponent :=
            mul_le_mul_of_nonneg_right (by linarith) (by positivity)
        _ ≤ decimal.magnitudeValue := (rounds.near BinaryFormat.double_proper).1
    have powers : (10 : ℚ) ^ (-400 : Int) <
        10 ^ (digitCount decimal.coefficient + decimal.exponent) :=
      ((ten_zpow_le_two_zpow (by omega) (by omega)).trans half).trans_lt upper
    exact ((zpow_lt_zpow_iff_right₀ (by norm_num)).mp powers).le
  · have below : decimal.magnitudeValue < 2 ^ (53 + exponent) := rounds.lt
    have powers : (10 : ℚ) ^ (digitCount decimal.coefficient + decimal.exponent - 1) <
        10 ^ (400 : Int) :=
      (lower.trans_lt below).trans_le (two_zpow_le_ten_zpow (by omega) (by omega))
    have order := (zpow_lt_zpow_iff_right₀ (by norm_num)).mp powers
    omega

theorem toBinary_eq_finite_iff {decimal : Decimal} {sign : Bool} {mantissa : Nat} {exponent : Int}
    (nonzero : mantissa ≠ 0) :
    decimal.toBinary .double = .finite sign mantissa exponent ↔ decimal.negative = sign ∧
      BinaryFormat.double.RoundsTo decimal.magnitudeValue mantissa exponent := by
  by_cases empty : decimal.coefficient = 0
  · have vanishes : decimal.magnitudeValue = 0 := by simp [magnitudeValue, empty]
    constructor
    · intro read
      simp only [toBinary, if_pos empty, Binary.zero, Binary.finite.injEq] at read
      exact absurd read.2.1.symm nonzero
    · rintro ⟨_, rounds⟩
      exact absurd vanishes rounds.positive.ne'
  · have numerator : 0 < (scaleRatio 10 decimal.exponent (decimal.coefficient, 1)).1 :=
      scaleRatio_fst_pos _ (by norm_num) (Nat.pos_of_ne_zero empty)
    have denominator : 0 < (scaleRatio 10 decimal.exponent (decimal.coefficient, 1)).2 :=
      scaleRatio_snd_pos _ (by norm_num) (by norm_num)
    rw [toBinary, if_neg empty]
    dsimp only
    split_ifs with large small
    · refine ⟨by simp, ?_⟩
      rintro ⟨_, rounds⟩
      have size := size_of_roundsTo empty nonzero rounds
      omega
    · constructor
      · intro read
        exact absurd (Binary.finite.inj read).2.1.symm nonzero
      · rintro ⟨_, rounds⟩
        have size := size_of_roundsTo empty nonzero rounds
        omega
    · rw [Binary.ofRatio_eq_finite_iff BinaryFormat.double_proper numerator denominator,
        Prod.mk.eta, ratioValue_magnitude]

theorem toBinary_of_holds {decimal : Decimal} {mantissa : Nat} {exponent : Int}
    (holds : BinaryFormat.double.Holds mantissa exponent) (nonzero : mantissa ≠ 0)
    (value : decimal.magnitudeValue = mantissa * 2 ^ exponent) :
    decimal.toBinary .double = .finite decimal.negative mantissa exponent :=
  (toBinary_eq_finite_iff nonzero).mpr
    ⟨rfl, value ▸ BinaryFormat.roundsTo_self BinaryFormat.double_proper holds nonzero⟩

theorem exact_magnitudeValue (negative : Bool) (mantissa : Nat) (exponent : Int) :
    (exact negative mantissa exponent).magnitudeValue = mantissa * 2 ^ exponent := by
  unfold exact
  split
  next whole =>
    obtain ⟨power, rfl⟩ := Int.eq_ofNat_of_zero_le whole
    simp [magnitudeValue]
  next fraction =>
    obtain ⟨power, rfl⟩ := Int.exists_eq_neg_ofNat (by omega : exponent ≤ 0)
    have ten : (10 : ℚ) = 2 * 5 := by norm_num
    simp only [magnitudeValue, Int.natAbs_neg, Int.natAbs_natCast, zpow_neg, zpow_natCast,
      Nat.cast_mul, Nat.pow_eq, Nat.cast_pow, Nat.cast_ofNat, ten, mul_pow]
    field_simp

/-- The decimal a double is written as reads back as the double. -/
theorem shortest_toBinary {mantissa : Nat} {exponent : Int} (negative : Bool)
    (holds : BinaryFormat.double.Holds mantissa exponent) :
    (shortest .double negative mantissa exponent).toBinary .double =
      .finite negative mantissa exponent := by
  by_cases empty : mantissa = 0
  · have least : exponent = -1074 := by
      rcases holds with ⟨_, least⟩ | ⟨above, _⟩
      · exact least
      · simp [empty, BinaryFormat.double] at above
    simp [shortest, empty, toBinary, Binary.zero, BinaryFormat.double, least]
  · have exactReads : (exact negative mantissa exponent).toBinary .double =
        .finite negative mantissa exponent := by
      have read := toBinary_of_holds holds empty (exact_magnitudeValue negative mantissa exponent)
      have sign : (exact negative mantissa exponent).negative = negative := by
        unfold exact
        split <;> rfl
      rw [read, sign]
    rw [shortest, if_neg empty]
    dsimp only
    split
    · split
      next readsBack => exact readsBack
      next => exact exactReads
    · exact exactReads

end Decimal

end EntitySchema
