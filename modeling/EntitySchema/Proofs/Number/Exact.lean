import EntitySchema.Proofs.Number.Nearest

/-!
Finite numbers as the values that they are exactly. A value that a format has is not changed by
rounding to it, so every single is the same number as a double, and so is every whole number of up
to 53 bits. A number is read as a whole one exactly if its value is whole.
-/

namespace EntitySchema

namespace BinaryFormat

variable {format : BinaryFormat}

theorem exists_holds (proper : format.Proper) (mantissa : Nat) (exponent : Int)
    (small : mantissa < 2 ^ format.precision) (least : format.leastExponent ≤ exponent)
    (greatest : exponent ≤ format.greatestExponent) :
    ∃ shifted place, format.Holds shifted place ∧
      (shifted : ℚ) * 2 ^ place = mantissa * 2 ^ exponent := by
  induction room : (exponent - format.leastExponent).toNat generalizing mantissa exponent with
  | zero =>
      by_cases full : 2 ^ (format.precision - 1) ≤ mantissa
      · exact ⟨mantissa, exponent, Or.inr ⟨full, small, least, greatest⟩, rfl⟩
      · exact ⟨mantissa, exponent, Or.inl ⟨not_le.mp full, by omega⟩, rfl⟩
  | succ room ih =>
      by_cases full : 2 ^ (format.precision - 1) ≤ mantissa
      · exact ⟨mantissa, exponent, Or.inr ⟨full, small, least, greatest⟩, rfl⟩
      · have bits := proper.two_pow
        obtain ⟨shifted, place, holds, same⟩ :=
          ih (2 * mantissa) (exponent - 1) (by omega) (by omega) (by omega) (by omega)
        refine ⟨shifted, place, holds, same.trans ?_⟩
        rw [zpow_sub_one₀ (by norm_num)]
        push_cast
        ring

end BinaryFormat

namespace Binary

def signed (negative : Bool) (size : ℚ) : ℚ := if negative then -size else size

def value? : Binary → Option ℚ
  | .finite negative mantissa exponent => some (signed negative (mantissa * 2 ^ exponent))
  | _ => none

def IsOf (format : BinaryFormat) : Binary → Prop
  | .finite _ mantissa exponent => format.Holds mantissa exponent
  | _ => True

theorem abs_signed (negative : Bool) (size : ℚ) : |signed negative size| = |size| := by
  cases negative <;> simp [signed]

theorem signed_natAbs (whole : Int) :
    signed (decide (whole < 0)) (whole.natAbs : ℚ) = whole := by
  rw [Nat.cast_natAbs, signed]
  by_cases below : whole < 0
  · rw [decide_eq_true below, if_pos rfl, abs_of_neg below]
    push_cast
    ring
  · rw [decide_eq_false below, if_neg (by decide), abs_of_nonneg (not_lt.mp below)]

theorem ratioValue_of_finite (mantissa : Nat) (exponent : Int) :
    ratioValue (scaleRatio 2 exponent (mantissa, 1)) = mantissa * 2 ^ exponent := by
  rw [ratioValue_scaleRatio _ _ (by norm_num)]
  simp [ratioValue]

theorem toInt?_finite {mantissa size : Nat} {exponent : Int} (negative : Bool)
    (value : (mantissa : ℚ) * 2 ^ exponent = size) :
    (finite negative mantissa exponent).toInt? =
      some (if negative then -(size : Int) else size) := by
  have positive : 0 < (scaleRatio 2 exponent (mantissa, 1)).2 :=
    scaleRatio_snd_pos exponent (by norm_num) (by norm_num)
  have scaled : (scaleRatio 2 exponent (mantissa, 1)).1 =
      size * (scaleRatio 2 exponent (mantissa, 1)).2 := by
    have ratio := (ratioValue_of_finite mantissa exponent).trans value
    rw [ratioValue, div_eq_iff (by positivity)] at ratio
    exact_mod_cast ratio
  simp [toInt?, scaled, Nat.mul_div_cancel _ positive]

theorem value?_of_toInt? {number : Binary} {whole : Int} (read : number.toInt? = some whole) :
    number.value? = some (whole : ℚ) := by
  cases number with
  | finite negative mantissa exponent =>
      have ratio := ratioValue_of_finite mantissa exponent
      have positive : 0 < (scaleRatio 2 exponent (mantissa, 1)).2 :=
        scaleRatio_snd_pos exponent (by norm_num) (by norm_num)
      simp only [toInt?] at read
      generalize scaleRatio 2 exponent (mantissa, 1) = scaled at ratio positive read
      split at read
      next divides =>
        obtain ⟨size, exact⟩ := Nat.dvd_of_mod_eq_zero divides
        have nonzero : (scaled.2 : ℚ) ≠ 0 := by positivity
        rw [exact, Nat.mul_div_cancel_left _ positive] at read
        obtain rfl := Option.some.inj read
        rw [value?, ← ratio, ratioValue, exact, Nat.cast_mul, mul_div_cancel_left₀ _ nonzero]
        cases negative <;> simp [signed]
      next => simp at read
  | infinite => simp [toInt?] at read
  | nan => simp [toInt?] at read

theorem toInt?_eq_some_iff {number : Binary} {whole : Int} :
    number.toInt? = some whole ↔ number.value? = some (whole : ℚ) := by
  refine ⟨value?_of_toInt?, fun value => ?_⟩
  cases number with
  | finite negative mantissa exponent =>
      have same : signed negative ((mantissa : ℚ) * 2 ^ exponent) = whole := Option.some.inj value
      have size : (mantissa : ℚ) * 2 ^ exponent = whole.natAbs := by
        have nonnegative : (0 : ℚ) ≤ mantissa * 2 ^ exponent := by positivity
        rw [Nat.cast_natAbs, Int.cast_abs, ← same, abs_signed, abs_of_nonneg nonnegative]
      have read := toInt?_finite negative size
      -- the whole number that is read has the same value, so it is the same one
      have again := value.symm.trans (value?_of_toInt? read)
      rw [Int.cast_injective (Option.some.inj again)]
      exact read
  | infinite => simp [value?] at value
  | nan => simp [value?] at value

variable {format : BinaryFormat} {numerator denominator mantissa : Nat} {exponent : Int}

theorem value?_ofRatio (proper : format.Proper) (negative : Bool)
    (denominatorPositive : 0 < denominator) (small : mantissa < 2 ^ format.precision)
    (least : format.leastExponent ≤ exponent) (greatest : exponent ≤ format.greatestExponent)
    (value : ratioValue (numerator, denominator) = mantissa * 2 ^ exponent) :
    (ofRatio format negative numerator denominator).value? =
      some (signed negative (mantissa * 2 ^ exponent)) := by
  by_cases empty : numerator = 0
  · have nothing : (mantissa : ℚ) * 2 ^ exponent = 0 := by simp [← value, ratioValue, empty]
    rw [ofRatio, if_pos empty, nothing]
    simp [zero, value?]
  · obtain ⟨shifted, place, holds, same⟩ :=
      BinaryFormat.exists_holds proper mantissa exponent small least greatest
    have nonzero : shifted ≠ 0 := by
      rintro rfl
      have positive : (0 : ℚ) < numerator := by exact_mod_cast Nat.pos_of_ne_zero empty
      have some : (0 : ℚ) < ratioValue (numerator, denominator) := by
        unfold ratioValue
        positivity
      rw [value, ← same, Nat.cast_zero, zero_mul] at some
      exact lt_irrefl _ some
    rw [ofRatio_of_holds proper holds nonzero denominatorPositive (value.trans same.symm), value?,
      same]

theorem value?_convert {narrow wide : BinaryFormat} {number : Binary} (proper : wide.Proper)
    (isOf : number.IsOf narrow) (narrowProper : narrow.Proper)
    (bits : narrow.precision ≤ wide.precision) (least : wide.leastExponent ≤ narrow.leastExponent)
    (greatest : narrow.greatestExponent ≤ wide.greatestExponent) :
    (number.convert wide).value? = number.value? := by
  cases number with
  | finite negative mantissa exponent =>
      have holds : narrow.Holds mantissa exponent := isOf
      exact value?_ofRatio proper negative
        (scaleRatio_snd_pos exponent (by norm_num) (by norm_num))
        (holds.lt_two_pow.trans_le (Nat.pow_le_pow_right (by norm_num) bits))
        (least.trans holds.least_le) ((holds.le_greatest narrowProper).trans greatest)
        (ratioValue_of_finite mantissa exponent)
  | infinite => rfl
  | nan => rfl

theorem value?_ofInt {whole : Int} (small : whole.natAbs < 2 ^ 53) :
    (ofInt .double whole).value? = some (whole : ℚ) := by
  have size : ratioValue (whole.natAbs, 1) = whole.natAbs * 2 ^ (0 : Int) := by simp [ratioValue]
  rw [ofInt, value?_ofRatio BinaryFormat.double_proper _ one_pos small (by decide) (by decide) size,
    zpow_zero, mul_one, signed_natAbs]

end Binary

end EntitySchema
