import EntitySchema.Proofs.Number.Rounding

/-!
Rounding to a format. A value is rounded to a number of the format, unless it is too large for all
of them. The values that are rounded to one number have no gaps between them and lie within half a
unit of the number, and a value that is close enough to it is one of them.
-/

namespace EntitySchema

namespace Binary

/-- What a value is rounded to: the nearest whole number, and of two of them the even one. -/
structure IsNearest (value : ℚ) (whole : Nat) : Prop where
  lower : (whole : ℚ) - 1 / 2 ≤ value
  upper : value ≤ whole + 1 / 2
  even : value = whole - 1 / 2 ∨ value = whole + 1 / 2 → whole % 2 = 0

theorem div_eq_half_iff (remainder : Nat) {denominator : Nat} (positive : (0 : ℚ) < denominator) :
    (remainder : ℚ) / denominator = 1 / 2 ↔ 2 * remainder = denominator := by
  rw [div_eq_div_iff positive.ne' (by norm_num), ← Nat.cast_inj (R := ℚ)]
  push_cast
  constructor <;> intro same <;> linarith

theorem half_lt_div_iff (remainder : Nat) {denominator : Nat} (positive : (0 : ℚ) < denominator) :
    1 / 2 < (remainder : ℚ) / denominator ↔ denominator < 2 * remainder := by
  rw [lt_div_iff₀ positive, ← Nat.cast_lt (α := ℚ)]
  push_cast
  constructor <;> intro order <;> linarith

theorem roundQuotient_isNearest (numerator : Nat) {denominator : Nat}
    (positive : 0 < denominator) :
    IsNearest (ratioValue (numerator, denominator)) (roundQuotient numerator denominator) := by
  have positiveCast : (0 : ℚ) < denominator := by exact_mod_cast positive
  have divided := Nat.div_add_mod numerator denominator
  have small := Nat.mod_lt numerator positive
  unfold roundQuotient
  dsimp only
  generalize numerator / denominator = quotient at divided ⊢
  generalize numerator % denominator = remainder at divided small ⊢
  have value : ratioValue (numerator, denominator) =
      quotient + (remainder : ℚ) / denominator := by
    rw [ratioValue, ← divided]
    push_cast
    field_simp
  have fractionLt : (remainder : ℚ) / denominator < 1 :=
    (div_lt_one positiveCast).mpr (by exact_mod_cast small)
  have fractionNonneg : 0 ≤ (remainder : ℚ) / denominator := by positivity
  have half := div_eq_half_iff remainder positiveCast
  have more := half_lt_div_iff remainder positiveCast
  rw [value]
  generalize (remainder : ℚ) / denominator = fraction at *
  split
  next up =>
    have large : 1 / 2 ≤ fraction := up.elim (fun above => (more.mpr above).le)
      fun tie => (half.mpr tie.1).ge
    refine ⟨by push_cast; linarith, by push_cast; linarith, ?_⟩
    rintro (tie | tie)
    · push_cast at tie
      have exact := half.mp (by linarith)
      omega
    · push_cast at tie
      linarith
  next down =>
    rw [← more, ← half] at down
    have few : fraction ≤ 1 / 2 := not_lt.mp fun above => down (Or.inl above)
    refine ⟨by linarith, by linarith, ?_⟩
    rintro (tie | tie)
    · linarith
    · have exact : fraction = 1 / 2 := by linarith
      by_contra odd
      exact down (Or.inr ⟨exact, by omega⟩)

theorem exists_isNearest {value : ℚ} (nonnegative : 0 ≤ value) :
    ∃ whole, IsNearest value whole := by
  have same : ratioValue (value.num.natAbs, value.den) = value := by
    have numerator : ((value.num.natAbs : ℤ) : ℚ) = value.num := by
      rw [Int.natAbs_of_nonneg (Rat.num_nonneg.mpr nonnegative)]
    rw [ratioValue, ← Int.cast_natCast value.num.natAbs, numerator, Rat.num_div_den]
  exact ⟨_, same ▸ roundQuotient_isNearest value.num.natAbs value.den_pos⟩

theorem isNearest_of_lt {value : ℚ} {whole : Nat} (lower : (whole : ℚ) - 1 / 2 < value)
    (upper : value < whole + 1 / 2) : IsNearest value whole := by
  refine ⟨lower.le, upper.le, ?_⟩
  rintro (tie | tie)
  · exact absurd tie lower.ne'
  · exact absurd tie upper.ne

namespace IsNearest

variable {low high : ℚ} {first second : Nat}

theorem le (lowNearest : IsNearest low first) (highNearest : IsNearest high second)
    (ordered : low ≤ high) : first ≤ second := by
  by_contra greater
  have step : (second : ℚ) + 1 ≤ first := by exact_mod_cast (by omega : second + 1 ≤ first)
  have lower := lowNearest.lower
  have upper := highNearest.upper
  -- both values lie halfway between the two whole numbers, which cannot both be even
  have next : (first : ℚ) = second + 1 := by linarith
  have firstEven := lowNearest.even (Or.inl (by linarith))
  have secondEven := highNearest.even (Or.inr (by linarith))
  have successor : first = second + 1 := by exact_mod_cast next
  omega

theorem natCast (whole : Nat) : IsNearest whole whole :=
  isNearest_of_lt (by linarith) (by linarith)

theorem eq {value : ℚ} (left : IsNearest value first) (right : IsNearest value second) :
    first = second :=
  Nat.le_antisymm (left.le right le_rfl) (right.le left le_rfl)

end IsNearest

end Binary

namespace BinaryFormat

def unitExponent (format : BinaryFormat) (value : ℚ) : Int :=
  max format.leastExponent (Int.log 2 value - (format.precision - 1))

def unitsOf (format : BinaryFormat) (value : ℚ) : ℚ := value * 2 ^ (-format.unitExponent value)

variable {format : BinaryFormat} {value : ℚ}

theorem unitExponent_mono {low high : ℚ} (positive : 0 < low) (ordered : low ≤ high) :
    format.unitExponent low ≤ format.unitExponent high := by
  have logs : Int.log 2 low ≤ Int.log 2 high := Int.log_mono_right positive ordered
  unfold unitExponent
  omega

theorem unitExponent_eq {exponent : Int} (proper : format.Proper) (positive : 0 < value)
    (least : format.leastExponent ≤ exponent)
    (normal : exponent = format.leastExponent ∨
      (2 ^ (format.precision - 1) : Nat) * (2 : ℚ) ^ exponent ≤ value)
    (fits : value < (2 ^ format.precision : Nat) * (2 : ℚ) ^ exponent) :
    format.unitExponent value = exponent := by
  have bit := proper.1
  push_cast at normal fits
  rw [← zpow_natCast, ← zpow_add₀ (by norm_num), ← Nat.cast_ofNat,
    Int.lt_zpow_iff_log_lt (by norm_num) positive] at fits
  rw [← zpow_natCast, ← zpow_add₀ (by norm_num), ← Nat.cast_ofNat,
    Int.zpow_le_iff_le_log (by norm_num) positive] at normal
  unfold unitExponent
  omega

theorem unitsOf_eq {exponent : Int} (same : format.unitExponent value = exponent) :
    format.unitsOf value = value / 2 ^ exponent := by
  rw [unitsOf, same, zpow_neg, ← div_eq_mul_inv]

theorem unitsOf_pos (positive : 0 < value) : 0 < format.unitsOf value := by
  unfold unitsOf
  positivity

theorem unitsOf_lt (positive : 0 < value) : format.unitsOf value < 2 ^ format.precision := by
  have below : value < (2 : ℚ) ^ (format.precision + format.unitExponent value) := by
    rw [← Nat.cast_ofNat, Int.lt_zpow_iff_log_lt (by norm_num) positive, unitExponent]
    omega
  rwa [unitsOf, zpow_neg, ← div_eq_mul_inv, div_lt_iff₀ (by positivity), ← zpow_natCast,
    ← zpow_add₀ (by norm_num)]

theorem unitsOf_le (positive : 0 < value) :
    format.unitsOf value ≤ (2 ^ format.precision : Nat) := by
  push_cast
  exact (unitsOf_lt positive).le

theorem le_unitsOf (proper : format.Proper) (positive : 0 < value)
    (normal : format.unitExponent value ≠ format.leastExponent) :
    (2 ^ (format.precision - 1) : Nat) ≤ format.unitsOf value := by
  have bit := proper.1
  have above : (2 : ℚ) ^ ((format.precision - 1 : Nat) + format.unitExponent value) ≤ value := by
    unfold unitExponent at normal ⊢
    rw [← Nat.cast_ofNat, Int.zpow_le_iff_le_log (by norm_num) positive]
    omega
  push_cast
  rwa [unitsOf, zpow_neg, ← div_eq_mul_inv, le_div_iff₀ (by positivity), ← zpow_natCast,
    ← zpow_add₀ (by norm_num)]

/--
A positive value is rounded to this mantissa and exponent. When rounding fills up all mantissa
bits, the exponent is one more than that of the value.
-/
structure RoundsTo (format : BinaryFormat) (value : ℚ) (mantissa : Nat) (exponent : Int) :
    Prop where
  positive : 0 < value
  inside : exponent ≤ format.greatestExponent
  rounded :
    Binary.IsNearest (format.unitsOf value) mantissa ∧ mantissa ≠ 2 ^ format.precision ∧
        exponent = format.unitExponent value ∨
      Binary.IsNearest (format.unitsOf value) (2 ^ format.precision) ∧
        mantissa = 2 ^ (format.precision - 1) ∧ exponent = format.unitExponent value + 1

end BinaryFormat

namespace Binary

theorem ofRatio_eq_finite_iff {format : BinaryFormat} (proper : format.Proper)
    {negative sign : Bool} {numerator denominator mantissa : Nat} {exponent : Int}
    (numeratorPositive : 0 < numerator) (denominatorPositive : 0 < denominator) :
    ofRatio format negative numerator denominator = .finite sign mantissa exponent ↔
      negative = sign ∧
        format.RoundsTo (ratioValue (numerator, denominator)) mantissa exponent := by
  have positive : 0 < ratioValue (numerator, denominator) := by
    unfold ratioValue
    positivity
  have unit : max format.leastExponent (floorLog2 numerator denominator - (format.precision - 1)) =
      format.unitExponent (ratioValue (numerator, denominator)) := by
    rw [floorLog2_eq_log numeratorPositive denominatorPositive, BinaryFormat.unitExponent]
  have scaledPositive : 0 < (scaleRatio 2
      (-format.unitExponent (ratioValue (numerator, denominator))) (numerator, denominator)).2 :=
    scaleRatio_snd_pos _ (by norm_num) denominatorPositive
  have nearest := roundQuotient_isNearest (scaleRatio 2
    (-format.unitExponent (ratioValue (numerator, denominator))) (numerator, denominator)).1
    scaledPositive
  rw [Prod.mk.eta, ratioValue_scaleRatio _ _ (by norm_num), Nat.cast_ofNat,
    ← BinaryFormat.unitsOf] at nearest
  rw [ofRatio, if_neg (Nat.ne_of_gt numeratorPositive)]
  dsimp only
  rw [unit, Nat.pow_eq]
  generalize roundQuotient _ _ = rounded at nearest ⊢
  constructor
  · intro found
    split at found <;> split at found
    · simp at found
    next carry inside =>
      obtain ⟨rfl, rfl, rfl⟩ := Binary.finite.inj found
      rw [carry] at nearest
      refine ⟨rfl, positive, not_lt.mp inside, Or.inr ⟨nearest, ?_, rfl⟩⟩
      rw [carry, proper.two_pow_div_two]
    · simp at found
    next noCarry inside =>
      obtain ⟨rfl, rfl, rfl⟩ := Binary.finite.inj found
      exact ⟨rfl, positive, not_lt.mp inside, Or.inl ⟨nearest, noCarry, rfl⟩⟩
  · rintro ⟨rfl, _, inside, ⟨found, noCarry, rfl⟩ | ⟨found, rfl, rfl⟩⟩
    · rw [nearest.eq found, if_neg noCarry]
      exact if_neg (not_lt.mpr inside)
    · rw [nearest.eq found, if_pos rfl, proper.two_pow_div_two]
      exact if_neg (not_lt.mpr inside)

end Binary

namespace BinaryFormat

open Binary

section RoundsTo

variable {format : BinaryFormat} {value : ℚ} {mantissa : Nat} {exponent : Int}

theorem RoundsTo.between (proper : format.Proper) {low high : ℚ}
    (lowRounds : format.RoundsTo low mantissa exponent)
    (highRounds : format.RoundsTo high mantissa exponent) (above : low ≤ value)
    (below : value ≤ high) : format.RoundsTo value mantissa exponent := by
  have positive : 0 < value := lowRounds.positive.trans_le above
  have lowUnit : format.unitExponent low ≤ format.unitExponent value :=
    unitExponent_mono lowRounds.positive above
  have highUnit : format.unitExponent value ≤ format.unitExponent high :=
    unitExponent_mono positive below
  have lowUnits (same : format.unitExponent low = format.unitExponent value) :
      format.unitsOf low ≤ format.unitsOf value := by
    unfold unitsOf
    rw [same]
    gcongr
  have highUnits (same : format.unitExponent value = format.unitExponent high) :
      format.unitsOf value ≤ format.unitsOf high := by
    unfold unitsOf
    rw [same]
    gcongr
  have someUnits : 0 < format.unitsOf value := unitsOf_pos positive
  obtain ⟨whole, nearest⟩ := exists_isNearest someUnits.le
  refine ⟨positive, lowRounds.inside, ?_⟩
  rcases lowRounds.rounded with ⟨lowNearest, noCarry, lowSame⟩ | ⟨lowNearest, full, lowSame⟩ <;>
    rcases highRounds.rounded with ⟨highNearest, highCarry, highSame⟩ |
      ⟨highNearest, highFull, highSame⟩
  · have lower := lowNearest.le nearest (lowUnits (by omega))
    have upper := nearest.le highNearest (highUnits (by omega))
    exact Or.inl ⟨Nat.le_antisymm lower upper ▸ nearest, noCarry, by omega⟩
  · omega
  · -- the low value carries over to the exponent of the high one
    by_cases same : format.unitExponent value = format.unitExponent low
    · have lower := lowNearest.le nearest (lowUnits same.symm)
      have upper := nearest.le (.natCast (2 ^ format.precision)) (unitsOf_le positive)
      exact Or.inr ⟨Nat.le_antisymm upper lower ▸ nearest, full, by omega⟩
    · have least : format.leastExponent ≤ format.unitExponent low := le_max_left _ _
      have upper := nearest.le highNearest (highUnits (by omega))
      have lower := IsNearest.le (.natCast (2 ^ (format.precision - 1))) nearest
        (le_unitsOf proper positive (by omega))
      rw [← full] at lower
      exact Or.inl ⟨Nat.le_antisymm upper lower ▸ nearest, highCarry, by omega⟩
  · have lower := lowNearest.le nearest (lowUnits (by omega))
    have upper := nearest.le highNearest (highUnits (by omega))
    exact Or.inr ⟨Nat.le_antisymm lower upper ▸ nearest, full, by omega⟩

theorem unitsOf_mul (format : BinaryFormat) (value : ℚ) :
    format.unitsOf value * 2 ^ format.unitExponent value = value := by
  rw [unitsOf, mul_assoc, ← zpow_add₀ (by norm_num), neg_add_cancel, zpow_zero, mul_one]

theorem RoundsTo.near (rounds : format.RoundsTo value mantissa exponent) (proper : format.Proper) :
    ((mantissa : ℚ) - 1 / 2) * 2 ^ exponent ≤ value ∧
      value ≤ ((mantissa : ℚ) + 1 / 2) * 2 ^ exponent := by
  have restored := unitsOf_mul format value
  have unit : (0 : ℚ) < 2 ^ format.unitExponent value := by positivity
  rcases rounds.rounded with ⟨nearest, _, rfl⟩ | ⟨nearest, rfl, rfl⟩
  · have below := mul_le_mul_of_nonneg_right nearest.lower unit.le
    have above := mul_le_mul_of_nonneg_right nearest.upper unit.le
    rw [restored] at below above
    exact ⟨below, above⟩
  · have doubled : ((2 ^ format.precision : Nat) : ℚ) = 2 * (2 ^ (format.precision - 1) : Nat) := by
      exact_mod_cast proper.two_pow
    have below := mul_le_mul_of_nonneg_right nearest.lower unit.le
    have above := mul_le_mul_of_nonneg_right nearest.upper unit.le
    rw [restored, doubled] at below above
    rw [zpow_add_one₀ (by norm_num)]
    constructor <;> linarith

theorem RoundsTo.exponent_bounds (rounds : format.RoundsTo value mantissa exponent) :
    format.unitExponent value ≤ exponent ∧ format.leastExponent ≤ exponent := by
  have least : format.leastExponent ≤ format.unitExponent value := le_max_left _ _
  rcases rounds.rounded with ⟨_, _, same⟩ | ⟨_, _, same⟩ <;> omega

theorem RoundsTo.lt (rounds : format.RoundsTo value mantissa exponent) :
    value < 2 ^ (format.precision + exponent) := by
  have unit : (0 : ℚ) < 2 ^ format.unitExponent value := by positivity
  calc value = format.unitsOf value * 2 ^ format.unitExponent value :=
        (unitsOf_mul format value).symm
    _ < 2 ^ format.precision * 2 ^ format.unitExponent value :=
        mul_lt_mul_of_pos_right (unitsOf_lt rounds.positive) unit
    _ = 2 ^ (format.precision + format.unitExponent value) := by
        rw [← zpow_natCast, ← zpow_add₀ (by norm_num)]
    _ ≤ 2 ^ (format.precision + exponent) :=
        zpow_le_zpow_right₀ (by norm_num) (by linarith [rounds.exponent_bounds.1])

theorem RoundsTo.le_three_mul (proper : format.Proper) (nonzero : mantissa ≠ 0) {other : ℚ}
    (rounds : format.RoundsTo value mantissa exponent)
    (otherRounds : format.RoundsTo other mantissa exponent) : value ≤ 3 * other := by
  have one : (1 : ℚ) ≤ mantissa := by exact_mod_cast Nat.one_le_iff_ne_zero.mpr nonzero
  have unit : (0 : ℚ) < 2 ^ exponent := by positivity
  calc value ≤ ((mantissa : ℚ) + 1 / 2) * 2 ^ exponent := (rounds.near proper).2
    _ ≤ 3 * ((mantissa : ℚ) - 1 / 2) * 2 ^ exponent :=
        mul_le_mul_of_nonneg_right (by linarith) unit.le
    _ = 3 * (((mantissa : ℚ) - 1 / 2) * 2 ^ exponent) := mul_assoc _ _ _
    _ ≤ 3 * other := mul_le_mul_of_nonneg_left (otherRounds.near proper).1 (by norm_num)

theorem roundsTo_of_near (proper : format.Proper) (holds : format.Holds mantissa exponent)
    (nonzero : mantissa ≠ 0)
    (normal : exponent = format.leastExponent ∨
      (2 ^ (format.precision - 1) : Nat) * (2 : ℚ) ^ exponent ≤ value)
    (above : ((mantissa : ℚ) - 1 / 2) * 2 ^ exponent < value)
    (below : value < ((mantissa : ℚ) + 1 / 2) * 2 ^ exponent) :
    format.RoundsTo value mantissa exponent := by
  have size : (0 : ℚ) < 2 ^ exponent := by positivity
  have some : (1 : ℚ) ≤ mantissa := by exact_mod_cast Nat.one_le_iff_ne_zero.mpr nonzero
  have small : (mantissa : ℚ) + 1 ≤ (2 ^ format.precision : Nat) := by
    exact_mod_cast holds.lt_two_pow
  have positive : 0 < value := lt_trans (mul_pos (by linarith) size) above
  have fits : value < (2 ^ format.precision : Nat) * (2 : ℚ) ^ exponent :=
    below.trans_le (mul_le_mul_of_nonneg_right (by linarith) size.le)
  have unit := unitExponent_eq proper positive holds.least_le normal fits
  refine ⟨positive, holds.le_greatest proper, Or.inl ⟨?_, holds.lt_two_pow.ne, unit.symm⟩⟩
  rw [unitsOf_eq unit]
  exact isNearest_of_lt ((lt_div_iff₀ size).mpr above) ((div_lt_iff₀ size).mpr below)

theorem roundsTo_of_near_power (proper : format.Proper) (holds : format.Holds mantissa exponent)
    (full : mantissa = 2 ^ (format.precision - 1)) (normal : exponent ≠ format.leastExponent)
    (above : ((mantissa : ℚ) - 1 / 4) * 2 ^ exponent < value)
    (below : value < (mantissa : ℚ) * 2 ^ exponent) :
    format.RoundsTo value mantissa exponent := by
  have least := holds.least_le
  have size : (0 : ℚ) < 2 ^ (exponent - 1) := by positivity
  have halved : (2 : ℚ) ^ exponent = 2 * 2 ^ (exponent - 1) := by
    rw [← zpow_one_add₀ (by norm_num), add_sub_cancel]
  have some : (1 : ℚ) ≤ mantissa := by exact_mod_cast full ▸ Nat.one_le_two_pow
  have doubled : ((2 ^ format.precision : Nat) : ℚ) = 2 * mantissa := by
    rw [proper.two_pow, full]
    push_cast
    rfl
  rw [halved, ← mul_assoc] at above below
  have positive : 0 < value := lt_trans (mul_pos (by linarith) size) above
  have reaches : (2 ^ (format.precision - 1) : Nat) * (2 : ℚ) ^ (exponent - 1) ≤ value := by
    rw [← full]
    exact (mul_le_mul_of_nonneg_right (by linarith) size.le).trans above.le
  have fits : value < (2 ^ format.precision : Nat) * (2 : ℚ) ^ (exponent - 1) := by
    rw [doubled]
    linarith
  have unit := unitExponent_eq proper positive (by omega) (Or.inr reaches) fits
  refine ⟨positive, holds.le_greatest proper, Or.inr ⟨?_, full, by omega⟩⟩
  rw [unitsOf_eq unit]
  refine isNearest_of_lt ?_ ?_
  · rw [lt_div_iff₀ size, doubled]
    linarith
  · rw [div_lt_iff₀ size, doubled]
    linarith

/-- A value is rounded to a number that it is close enough to, in terms of that number. -/
theorem roundsTo_of_close (proper : format.Proper) (holds : format.Holds mantissa exponent)
    (nonzero : mantissa ≠ 0)
    (lower : (mantissa : ℚ) * 2 ^ exponent * (1 - 1 / 2 ^ (format.precision + 1)) < value)
    (upper : value < (mantissa : ℚ) * 2 ^ exponent * (1 + 1 / 2 ^ (format.precision + 1))) :
    format.RoundsTo value mantissa exponent := by
  have size : (0 : ℚ) < 2 ^ exponent := by positivity
  have margin : (mantissa : ℚ) * (1 / 2 ^ (format.precision + 1)) < 1 / 2 := by
    have small : (mantissa : ℚ) < 2 ^ format.precision := by exact_mod_cast holds.lt_two_pow
    rw [mul_one_div, div_lt_iff₀ (by positivity), pow_succ]
    linarith
  have scaledMargin := mul_lt_mul_of_pos_right margin size
  by_cases normal : exponent = format.leastExponent ∨
      (2 ^ (format.precision - 1) : Nat) * (2 : ℚ) ^ exponent ≤ value
  · exact roundsTo_of_near proper holds nonzero normal (by linarith) (by linarith)
  · obtain ⟨notLeast, short⟩ := not_or.mp normal
    rw [not_le] at short
    have atLeast : 2 ^ (format.precision - 1) ≤ mantissa :=
      holds.elim (fun subnormal => absurd subnormal.2 notLeast) fun normal => normal.1
    have few : (mantissa : ℚ) < (2 ^ (format.precision - 1) : Nat) + 1 := by
      have order : ((mantissa : ℚ) - 1 / 2) * 2 ^ exponent <
          (2 ^ (format.precision - 1) : Nat) * 2 ^ exponent := by linarith
      linarith [lt_of_mul_lt_mul_right order size.le]
    have full : mantissa = 2 ^ (format.precision - 1) := by
      have atMost : mantissa < 2 ^ (format.precision - 1) + 1 := by exact_mod_cast few
      omega
    have quarter : (mantissa : ℚ) * (1 / 2 ^ (format.precision + 1)) = 1 / 4 := by
      have doubled : (2 : ℚ) ^ format.precision = 2 * mantissa := by
        rw [full]
        exact_mod_cast proper.two_pow
      have some : (mantissa : ℚ) ≠ 0 := by exact_mod_cast nonzero
      rw [pow_succ, doubled]
      field_simp
      norm_num
    refine roundsTo_of_near_power proper holds full notLeast ?_ (full ▸ short)
    calc ((mantissa : ℚ) - 1 / 4) * 2 ^ exponent
        = mantissa * 2 ^ exponent * (1 - 1 / 2 ^ (format.precision + 1)) := by
          rw [← quarter]
          ring
      _ < value := lower

theorem RoundsTo.unique {otherMantissa : Nat} {otherExponent : Int}
    (rounds : format.RoundsTo value mantissa exponent)
    (otherRounds : format.RoundsTo value otherMantissa otherExponent) :
    mantissa = otherMantissa ∧ exponent = otherExponent := by
  rcases rounds.rounded with ⟨nearest, noCarry, same⟩ | ⟨nearest, full, same⟩ <;>
    rcases otherRounds.rounded with ⟨otherNearest, otherNoCarry, otherSame⟩ |
      ⟨otherNearest, otherFull, otherSame⟩
  · exact ⟨nearest.eq otherNearest, by omega⟩
  · exact absurd (nearest.eq otherNearest) noCarry
  · exact absurd (otherNearest.eq nearest) otherNoCarry
  · exact ⟨by omega, by omega⟩

theorem RoundsTo.holds (proper : format.Proper)
    (rounds : format.RoundsTo value mantissa exponent) : format.Holds mantissa exponent := by
  have positive := rounds.positive
  have least := rounds.exponent_bounds.2
  have full := proper.two_pow
  rcases rounds.rounded with ⟨nearest, noCarry, same⟩ | ⟨_, same, _⟩
  · have upper := nearest.le (.natCast (2 ^ format.precision)) (unitsOf_le positive)
    by_cases small : mantissa < 2 ^ (format.precision - 1)
    · refine Or.inl ⟨small, ?_⟩
      by_contra above
      have lower := IsNearest.le (.natCast (2 ^ (format.precision - 1))) nearest
        (le_unitsOf proper positive (same ▸ above))
      omega
    · exact Or.inr ⟨by omega, by omega, least, rounds.inside⟩
  · have positivePower : 0 < 2 ^ (format.precision - 1) := by positivity
    exact Or.inr ⟨same.ge, by omega, least, rounds.inside⟩

theorem roundsTo_self (proper : format.Proper) (holds : format.Holds mantissa exponent)
    (nonzero : mantissa ≠ 0) : format.RoundsTo (mantissa * 2 ^ exponent) mantissa exponent := by
  have positive : (0 : ℚ) < mantissa * 2 ^ exponent := by
    have mantissaPositive : (0 : ℚ) < mantissa := by exact_mod_cast Nat.pos_of_ne_zero nonzero
    positivity
  have margin : (0 : ℚ) < 1 / 2 ^ (format.precision + 1) := by positivity
  refine roundsTo_of_close proper holds nonzero ?_ ?_
  · exact mul_lt_of_lt_one_right positive (by linarith)
  · exact lt_mul_of_one_lt_right positive (by linarith)

end RoundsTo

end BinaryFormat

namespace Binary

variable {format : BinaryFormat} {numerator denominator mantissa : Nat} {exponent : Int}

theorem ofRatio_of_holds (proper : format.Proper) {negative : Bool}
    (holds : format.Holds mantissa exponent) (nonzero : mantissa ≠ 0)
    (denominatorPositive : 0 < denominator)
    (value : ratioValue (numerator, denominator) = mantissa * 2 ^ exponent) :
    ofRatio format negative numerator denominator = .finite negative mantissa exponent := by
  have rounds := BinaryFormat.roundsTo_self proper holds nonzero
  have numeratorPositive : 0 < numerator := by
    by_contra empty
    have positive := rounds.positive
    simp [← value, ratioValue, Nat.eq_zero_of_not_pos empty] at positive
  exact (ofRatio_eq_finite_iff proper numeratorPositive denominatorPositive).mpr
    ⟨rfl, value ▸ rounds⟩

theorem holds_of_ofRatio (proper : format.Proper) (denominatorPositive : 0 < denominator)
    {negative sign : Bool}
    (found : ofRatio format negative numerator denominator = .finite sign mantissa exponent) :
    format.Holds mantissa exponent := by
  by_cases empty : numerator = 0
  · simp only [ofRatio, if_pos empty, zero, finite.injEq] at found
    obtain ⟨-, rfl, rfl⟩ := found
    exact Or.inl ⟨by positivity, rfl⟩
  · exact ((ofRatio_eq_finite_iff proper (Nat.pos_of_ne_zero empty) denominatorPositive).mp
      found).2.holds proper

end Binary

end EntitySchema
