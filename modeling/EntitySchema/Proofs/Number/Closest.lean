import EntitySchema.Proofs.Number.Exact

/-!
Rounding goes to the closest number. No number of the format is closer to the value than the one it
is rounded to, and where another number is as close, the mantissa of the chosen one is even. The
numbers with a smaller last bit than the value's lie below all values with that last bit, so they
never compete.
-/

namespace EntitySchema

namespace Binary

/-- The place is closer to the target than another one, or it is as close and even. -/
def IsPreferred (target : ℚ) (mantissa : Nat) (place other : ℚ) : Prop :=
  |place - target| < |other - target| ∨ place = other ∨
    |place - target| = |other - target| ∧ mantissa % 2 = 0

namespace IsPreferred

variable {target place other farther : ℚ} {mantissa units : Nat}

theorem le (preferred : IsPreferred target mantissa place other) :
    |place - target| ≤ |other - target| := by
  rcases preferred with closer | rfl | ⟨same, _⟩
  · exact closer.le
  · exact le_rfl
  · exact same.le

theorem of_lt (preferred : IsPreferred target mantissa place other)
    (worse : |other - target| < |farther - target|) :
    IsPreferred target mantissa place farther :=
  Or.inl (preferred.le.trans_lt worse)

theorem scale (preferred : IsPreferred target units place other) {size : ℚ} (positive : 0 < size)
    (even : units % 2 = 0 → mantissa % 2 = 0) :
    IsPreferred (target * size) mantissa (place * size) (other * size) := by
  unfold IsPreferred
  rw [← sub_mul, ← sub_mul, abs_mul, abs_mul, abs_of_pos positive]
  rcases preferred with closer | rfl | ⟨same, tie⟩
  · exact Or.inl (mul_lt_mul_of_pos_right closer positive)
  · exact Or.inr (Or.inl rfl)
  · exact Or.inr (Or.inr ⟨by rw [same], even tie⟩)

end IsPreferred

theorem IsNearest.isPreferred {value : ℚ} {whole : Nat} (nearest : IsNearest value whole)
    (other : Nat) : IsPreferred value whole whole other := by
  have near : |(whole : ℚ) - value| ≤ 1 / 2 :=
    abs_le.mpr ⟨by linarith [nearest.upper], by linarith [nearest.lower]⟩
  by_cases different : whole = other
  · exact Or.inr (Or.inl (by rw [different]))
  -- The two whole numbers are at least one apart, so the other is half of that away or more.
  have apart : (1 : ℚ) ≤ |(other : ℚ) - whole| := by
    exact_mod_cast Int.one_le_abs (by omega : (other : ℤ) - whole ≠ 0)
  have triangle : |(other : ℚ) - whole| ≤ |(other : ℚ) - value| + |(whole : ℚ) - value| := by
    rw [abs_sub_comm (whole : ℚ) value]
    exact abs_sub_le _ _ _
  rcases (by linarith : |(whole : ℚ) - value| ≤ |(other : ℚ) - value|).lt_or_eq with closer | same
  · exact Or.inl closer
  · have half : |(whole : ℚ) - value| = 1 / 2 := by linarith
    refine Or.inr (Or.inr ⟨same, nearest.even ?_⟩)
    rcases abs_eq (by norm_num) |>.mp half with above | below
    · exact Or.inl (by linarith)
    · exact Or.inr (by linarith)

end Binary

namespace BinaryFormat

open Binary

variable {format : BinaryFormat} {value : ℚ} {mantissa otherMantissa : Nat}
  {exponent otherExponent : Int}

theorem RoundsTo.exists_units (rounds : format.RoundsTo value mantissa exponent)
    (proper : format.Proper) (bits : 2 ≤ format.precision) :
    ∃ units, IsNearest (format.unitsOf value) units ∧
      (mantissa : ℚ) * 2 ^ exponent = units * 2 ^ format.unitExponent value ∧
        (units % 2 = 0 → mantissa % 2 = 0) := by
  rcases rounds.rounded with ⟨nearest, _, rfl⟩ | ⟨nearest, rfl, rfl⟩
  · exact ⟨mantissa, nearest, rfl, id⟩
  · refine ⟨2 ^ format.precision, nearest, ?_, fun _ => ?_⟩
    · rw [proper.two_pow, zpow_add_one₀ (by norm_num)]
      push_cast
      ring
    · obtain ⟨more, precision⟩ := Nat.exists_eq_add_of_le bits
      rw [precision, show 2 + more - 1 = more + 1 by omega, Nat.pow_succ]
      exact Nat.mul_mod_left _ _

theorem Holds.units_or_below (holds : format.Holds otherMantissa otherExponent)
    (proper : format.Proper) (value : ℚ) :
    (∃ units : Nat, (otherMantissa : ℚ) * 2 ^ otherExponent =
        units * 2 ^ format.unitExponent value) ∨
      format.unitExponent value ≠ format.leastExponent ∧
        (otherMantissa : ℚ) * 2 ^ otherExponent <
          (2 ^ (format.precision - 1) : Nat) * 2 ^ format.unitExponent value := by
  rcases le_or_gt (format.unitExponent value) otherExponent with coarse | fine
  · obtain ⟨shift, rfl⟩ := Int.exists_add_of_le coarse
    refine Or.inl ⟨otherMantissa * 2 ^ shift, ?_⟩
    rw [zpow_add₀ (by norm_num), zpow_natCast]
    push_cast
    ring
  · refine Or.inr ⟨by have := holds.least_le; omega, ?_⟩
    have small : (otherMantissa : ℚ) < (2 ^ format.precision : Nat) := by
      exact_mod_cast holds.lt_two_pow
    calc (otherMantissa : ℚ) * 2 ^ otherExponent
        < (2 ^ format.precision : Nat) * 2 ^ otherExponent :=
          mul_lt_mul_of_pos_right small (by positivity)
      _ = (2 ^ (format.precision - 1) : Nat) * 2 ^ (otherExponent + 1) := by
          rw [proper.two_pow, zpow_add_one₀ (by norm_num)]
          push_cast
          ring
      _ ≤ (2 ^ (format.precision - 1) : Nat) * 2 ^ format.unitExponent value :=
          mul_le_mul_of_nonneg_left (zpow_le_zpow_right₀ (by norm_num) (by omega)) (by positivity)

theorem RoundsTo.isPreferred (rounds : format.RoundsTo value mantissa exponent)
    (proper : format.Proper) (bits : 2 ≤ format.precision)
    (holds : format.Holds otherMantissa otherExponent) :
    IsPreferred value mantissa (mantissa * 2 ^ exponent) (otherMantissa * 2 ^ otherExponent) := by
  have unit : (0 : ℚ) < 2 ^ format.unitExponent value := by positivity
  obtain ⟨units, nearest, same, even⟩ := rounds.exists_units proper bits
  have onGrid (others : Nat) : IsPreferred value mantissa (mantissa * 2 ^ exponent)
      (others * 2 ^ format.unitExponent value) := by
    have scaled := (nearest.isPreferred others).scale unit even
    rwa [unitsOf_mul, ← same] at scaled
  rcases holds.units_or_below proper value with ⟨others, grid⟩ | ⟨normal, below⟩
  · rw [grid]
    exact onGrid others
  · -- The least number with the value's units lies between the other number and the value.
    refine (onGrid (2 ^ (format.precision - 1))).of_lt ?_
    have reached : (2 ^ (format.precision - 1) : Nat) * 2 ^ format.unitExponent value ≤ value :=
      (mul_le_mul_of_nonneg_right (le_unitsOf proper rounds.positive normal) unit.le).trans
        (unitsOf_mul format value).le
    rw [abs_of_nonpos (by linarith), abs_of_nonpos (by linarith)]
    linarith

theorem exists_roundsTo (positive : 0 < value)
    (room : format.leastExponent < format.greatestExponent)
    (below : value < 2 ^ (format.precision - 1 + format.greatestExponent)) :
    ∃ mantissa exponent, format.RoundsTo value mantissa exponent := by
  have log : Int.log 2 value < format.precision - 1 + format.greatestExponent :=
    (Int.lt_zpow_iff_log_lt (by norm_num) positive).mp (by exact_mod_cast below)
  have inside : format.unitExponent value < format.greatestExponent := by
    unfold unitExponent
    omega
  have someUnits : 0 < format.unitsOf value := unitsOf_pos positive
  obtain ⟨whole, nearest⟩ := exists_isNearest someUnits.le
  by_cases carry : whole = 2 ^ format.precision
  · exact ⟨_, _, positive, inside, Or.inr ⟨carry ▸ nearest, rfl, rfl⟩⟩
  · exact ⟨_, _, positive, inside.le, Or.inl ⟨nearest, carry, rfl⟩⟩

end BinaryFormat

namespace Binary

/-- The number of the format that rounding to nearest, ties to even, gives for the target. -/
structure IsClosest (format : BinaryFormat) (target : ℚ) (negative : Bool) (mantissa : Nat)
    (exponent : Int) : Prop where
  holds : format.Holds mantissa exponent
  preferred : ∀ (other : Binary) (place : ℚ), other.IsOf format → other.value? = some place →
    IsPreferred target mantissa (signed negative (mantissa * 2 ^ exponent)) place

variable {format : BinaryFormat} {numerator denominator mantissa otherMantissa : Nat}
  {exponent otherExponent : Int} {target place other : ℚ}

theorem signed_sub_signed (negative : Bool) (place target : ℚ) :
    |signed negative place - signed negative target| = |place - target| := by
  cases negative
  · rfl
  · rw [signed, signed, if_pos rfl, if_pos rfl, neg_sub_neg, abs_sub_comm]

theorem signed_sub_opposite {negative sign : Bool} (opposite : sign ≠ negative)
    (placeNonneg : 0 ≤ place) (targetNonneg : 0 ≤ target) :
    |signed sign place - signed negative target| = place + target := by
  rw [← abs_of_nonneg (add_nonneg placeNonneg targetNonneg)]
  cases negative <;> cases sign
  · exact absurd rfl opposite
  · rw [signed, signed, if_pos rfl, if_neg (by decide), ← abs_neg]
    congr 1
    ring
  · rw [signed, signed, if_pos rfl, if_neg (by decide), sub_neg_eq_add]
  · exact absurd rfl opposite

theorem isPreferred_signed {negative sign : Bool} (targetNonneg : 0 ≤ target)
    (otherNonneg : 0 ≤ other) (toZero : IsPreferred target mantissa place 0)
    (toOther : IsPreferred target mantissa place other) :
    IsPreferred (signed negative target) mantissa (signed negative place) (signed sign other) := by
  unfold IsPreferred at toOther ⊢
  rw [signed_sub_signed]
  by_cases same : signed sign other = signed negative other
  · rw [same, signed_sub_signed]
    exact toOther.imp_right (Or.imp_left (congrArg _))
  · have opposite : sign ≠ negative := fun equal => same (by rw [equal])
    have nonzero : other ≠ 0 := by
      rintro rfl
      simp [signed] at same
    have positive : 0 < other := lt_of_le_of_ne otherNonneg nonzero.symm
    have nearer := toZero.le
    rw [zero_sub, abs_neg, abs_of_nonneg targetNonneg] at nearer
    rw [signed_sub_opposite opposite otherNonneg targetNonneg]
    exact Or.inl (by linarith)

theorem isClosest_ofRatio (proper : format.Proper) (bits : 2 ≤ format.precision)
    (denominatorPositive : 0 < denominator) {negative sign : Bool}
    (found : ofRatio format negative numerator denominator = .finite sign mantissa exponent) :
    IsClosest format (signed negative (ratioValue (numerator, denominator))) sign mantissa
      exponent := by
  refine ⟨holds_of_ofRatio proper denominatorPositive found, fun other place isOf value => ?_⟩
  by_cases empty : numerator = 0
  · have target : signed negative (ratioValue (numerator, denominator)) = 0 := by
      simp [signed, ratioValue, empty]
    rw [ofRatio, if_pos empty, zero] at found
    obtain ⟨rfl, rfl, rfl⟩ := Binary.finite.inj found
    have nothing : signed negative (((0 : Nat) : ℚ) * 2 ^ format.leastExponent) = 0 := by
      simp [signed]
    rw [target, nothing]
    by_cases same : (0 : ℚ) = place
    · exact Or.inr (Or.inl same)
    · refine Or.inl ?_
      rw [sub_zero, sub_zero, abs_zero]
      exact abs_pos.mpr (Ne.symm same)
  · obtain ⟨rfl, rounds⟩ :=
      (ofRatio_eq_finite_iff proper (Nat.pos_of_ne_zero empty) denominatorPositive).mp found
    cases other with
    | finite otherSign otherMantissa otherExponent =>
        obtain rfl := Option.some.inj value
        have zeroHolds : format.Holds 0 format.leastExponent := Or.inl ⟨by positivity, rfl⟩
        have toZero := rounds.isPreferred proper bits zeroHolds
        rw [Nat.cast_zero, zero_mul] at toZero
        exact isPreferred_signed rounds.positive.le (by positivity) toZero
          (rounds.isPreferred proper bits isOf)
    | infinite => simp [value?] at value
    | nan => simp [value?] at value

theorem isClosest_ofInt {whole : Int} {sign : Bool}
    (found : ofInt .double whole = .finite sign mantissa exponent) :
    IsClosest .double whole sign mantissa exponent := by
  have closest := isClosest_ofRatio BinaryFormat.double_proper (by decide) one_pos found
  have size : ratioValue (whole.natAbs, 1) = whole.natAbs := by simp [ratioValue]
  rwa [size, signed_natAbs] at closest

theorem exists_ofInt {whole : Int} (small : whole.natAbs ≤ 2 ^ 64) :
    ∃ sign mantissa exponent, ofInt .double whole = .finite sign mantissa exponent := by
  by_cases empty : whole.natAbs = 0
  · exact ⟨_, _, _, by rw [ofInt, ofRatio, if_pos empty, zero]⟩
  · have size : ratioValue (whole.natAbs, 1) = whole.natAbs := by simp [ratioValue]
    have positive : (0 : ℚ) < ratioValue (whole.natAbs, 1) := by
      rw [size]
      exact_mod_cast Nat.pos_of_ne_zero empty
    have below : ratioValue (whole.natAbs, 1) <
        2 ^ ((BinaryFormat.double.precision : Int) - 1 + BinaryFormat.double.greatestExponent) := by
      calc ratioValue (whole.natAbs, 1) ≤ (2 : ℚ) ^ (64 : Int) := by
            rw [size]
            exact_mod_cast small
        _ < _ := zpow_lt_zpow_right₀ (by norm_num) (by decide)
    obtain ⟨mantissa, exponent, rounds⟩ :=
      BinaryFormat.exists_roundsTo positive (by decide) below
    exact ⟨_, mantissa, exponent,
      (ofRatio_eq_finite_iff BinaryFormat.double_proper (Nat.pos_of_ne_zero empty) one_pos).mpr
        ⟨rfl, rounds⟩⟩

theorem le_abs_of_ofInt {whole : Int} (large : 2 ^ 53 ≤ whole.natAbs)
    (value : (ofInt .double whole).value? = some place) : 2 ^ 53 ≤ |place| := by
  cases found : ofInt .double whole with
  | finite sign mantissa exponent =>
      rw [found] at value
      obtain rfl := Option.some.inj value
      have power : (Binary.finite (decide (whole < 0)) (2 ^ 52) 1).IsOf .double :=
        Or.inr ⟨by decide, by decide, by decide, by decide⟩
      have nearer := ((isClosest_ofInt found).preferred _ _ power rfl).le
      have atLeast : (2 : ℚ) ^ 53 ≤ whole.natAbs := by exact_mod_cast large
      have most : |signed (decide (whole < 0)) (((2 ^ 52 : Nat) : ℚ) * 2 ^ (1 : Int)) - whole| =
          whole.natAbs - 2 ^ 53 := by
        have size : ((2 ^ 52 : Nat) : ℚ) * 2 ^ (1 : Int) = 2 ^ 53 := by norm_num
        rw [← signed_natAbs whole, signed_sub_signed, size, abs_of_nonpos (by linarith), neg_sub]
      have size : |(whole : ℚ)| = whole.natAbs := by rw [Nat.cast_natAbs, Int.cast_abs]
      have triangle := abs_sub_abs_le_abs_sub (whole : ℚ)
        (signed sign (mantissa * 2 ^ exponent))
      rw [abs_sub_comm] at triangle
      linarith
  | infinite => simp [found, value?] at value
  | nan => simp [found, value?] at value

end Binary

end EntitySchema
