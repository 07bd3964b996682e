import EntitySchema.Proofs.Number.RoundTrip

/-!
The decimal a double is written as. Seventeen digits are always enough, so it is one of the two
decimals next to the double with as few digits as read back, without the zeros at its end.
-/

namespace EntitySchema

open BinaryFormat

namespace Decimal

section Trim

theorem trimZeros_spec (fuel coefficient : Nat) (exponent : Int) :
    ((trimZeros fuel coefficient exponent).1 : ℚ) * 10 ^ (trimZeros fuel coefficient exponent).2 =
        coefficient * 10 ^ exponent ∧
      exponent ≤ (trimZeros fuel coefficient exponent).2 ∧
      (coefficient ≠ 0 → coefficient < 10 ^ fuel →
        (trimZeros fuel coefficient exponent).1 % 10 ≠ 0) := by
  induction fuel generalizing coefficient exponent with
  | zero => exact ⟨rfl, le_rfl, fun nonzero small => by omega⟩
  | succ fuel ih =>
      unfold trimZeros
      split
      next divides =>
        obtain ⟨value, larger, ends⟩ := ih (coefficient / 10) (exponent + 1)
        have tenfold : coefficient = coefficient / 10 * 10 := by omega
        refine ⟨?_, by omega, fun nonzero small => ends (by omega) ?_⟩
        · rw [value, zpow_add_one₀ (by norm_num)]
          nth_rewrite 2 [tenfold]
          push_cast
          ring
        · rw [pow_succ] at small
          omega
      next whole => exact ⟨rfl, le_rfl, fun nonzero _ divides => whole ⟨divides, nonzero⟩⟩

theorem trim_magnitudeValue (decimal : Decimal) :
    decimal.trim.magnitudeValue = decimal.magnitudeValue :=
  (trimZeros_spec _ _ _).1

theorem exponent_le_trim (decimal : Decimal) : decimal.exponent ≤ decimal.trim.exponent :=
  (trimZeros_spec _ _ _).2.1

theorem trim_coefficient_mod {decimal : Decimal} (nonzero : decimal.coefficient ≠ 0) :
    decimal.trim.coefficient % 10 ≠ 0 :=
  (trimZeros_spec _ _ _).2.2 nonzero (digitCount_bounds (Nat.pos_of_ne_zero nonzero)).2

end Trim

def countUnits (ratio : Nat × Nat) (unit : Int) : Nat :=
  (scaleRatio 10 (-unit) ratio).1 / (scaleRatio 10 (-unit) ratio).2

theorem countUnits_bounds {ratio : Nat × Nat} (denominator : 0 < ratio.2) (unit : Int) :
    (countUnits ratio unit : ℚ) * 10 ^ unit ≤ ratioValue ratio ∧
      ratioValue ratio < ((countUnits ratio unit : ℚ) + 1) * 10 ^ unit := by
  have positive := scaleRatio_snd_pos (-unit) (show 0 < 10 by norm_num) denominator
  have positiveCast : (0 : ℚ) < (scaleRatio 10 (-unit) ratio).2 := by exact_mod_cast positive
  have scaled : ratioValue (scaleRatio 10 (-unit) ratio) = ratioValue ratio / 10 ^ unit := by
    rw [ratioValue_scaleRatio _ _ (by norm_num), zpow_neg, ← div_eq_mul_inv, Nat.cast_ofNat]
  have lower : (countUnits ratio unit : ℚ) ≤ ratioValue (scaleRatio 10 (-unit) ratio) := by
    rw [ratioValue, le_div_iff₀ positiveCast]
    exact_mod_cast Nat.div_mul_le_self _ _
  have upper : ratioValue (scaleRatio 10 (-unit) ratio) < countUnits ratio unit + 1 := by
    rw [ratioValue, div_lt_iff₀ positiveCast]
    exact_mod_cast (Nat.div_lt_iff_lt_mul positive).mp (Nat.lt_succ_self _)
  rw [scaled] at lower upper
  exact ⟨(le_div_iff₀ (by positivity)).mp lower, (div_lt_iff₀ (by positivity)).mp upper⟩

theorem countUnits_lt {ratio : Nat × Nat} (denominator : 0 < ratio.2) {magnitude : Int}
    (upper : ratioValue ratio < 10 ^ (magnitude + 1)) (count : Nat) :
    countUnits ratio (magnitude - count) < 10 ^ (count + 1) := by
  have whole : (10 : ℚ) ^ (magnitude + 1) = 10 ^ (count + 1) * 10 ^ (magnitude - count) := by
    rw [← zpow_natCast, ← zpow_add₀ (by norm_num)]
    congr 1
    push_cast
    ring
  have order : (countUnits ratio (magnitude - count) : ℚ) * 10 ^ (magnitude - count) <
      10 ^ (count + 1) * 10 ^ (magnitude - count) := by
    rw [← whole]
    exact (countUnits_bounds denominator _).1.trans_lt upper
  exact_mod_cast lt_of_mul_lt_mul_right order (by positivity)

section Neighbour

variable {target : Binary} {negative : Bool} {ratio : Nat × Nat} {magnitude : Int} {count : Nat}

def lastPlace (magnitude : Int) (count : Nat) : Int := magnitude - (count - 1 : Nat)

theorem neighbour?_spec {format : BinaryFormat} {decimal : Decimal}
    (found : neighbour? format target negative ratio magnitude count = some decimal) :
    decimal.toBinary format = target ∧ decimal.exponent = lastPlace magnitude count ∧
      decimal.coefficient ≤ countUnits ratio (lastPlace magnitude count) + 1 := by
  unfold neighbour? at found
  dsimp only at found
  rw [← lastPlace, ← countUnits] at found
  obtain ⟨lower, upper⟩ := Binary.roundQuotient_bounds
    (scaleRatio 10 (-lastPlace magnitude count) ratio).1
    (scaleRatio 10 (-lastPlace magnitude count) ratio).2
  rw [← countUnits] at lower upper
  split at found
  next belowReads aboveReads =>
    obtain rfl := Option.some.inj found
    refine ⟨?_, rfl, upper⟩
    have either : Binary.roundQuotient (scaleRatio 10 (-lastPlace magnitude count) ratio).1
          (scaleRatio 10 (-lastPlace magnitude count) ratio).2 =
            countUnits ratio (lastPlace magnitude count) ∨
        Binary.roundQuotient (scaleRatio 10 (-lastPlace magnitude count) ratio).1
          (scaleRatio 10 (-lastPlace magnitude count) ratio).2 =
            countUnits ratio (lastPlace magnitude count) + 1 := by omega
    rcases either with same | same
    · rw [same]
      simpa using belowReads
    · rw [same]
      simpa using aboveReads
  next belowReads _ =>
    obtain rfl := Option.some.inj found
    exact ⟨by simpa using belowReads, rfl, Nat.le_succ _⟩
  next aboveReads =>
    obtain rfl := Option.some.inj found
    exact ⟨by simpa using aboveReads, rfl, le_rfl⟩
  next => simp at found

variable {mantissa : Nat} {exponent : Int}

theorem reads_iff (nonzero : mantissa ≠ 0) (coefficient : Nat) (unit : Int) :
    (⟨negative, coefficient, unit⟩ : Decimal).toBinary .double =
        .finite negative mantissa exponent ↔
      double.RoundsTo (coefficient * 10 ^ unit) mantissa exponent := by
  rw [toBinary_eq_finite_iff nonzero]
  exact and_iff_right rfl

theorem neighbour?_ne_none (nonzero : mantissa ≠ 0) (denominator : 0 < ratio.2)
    (self : double.RoundsTo (ratioValue ratio) mantissa exponent) {whole : Nat}
    (reads : double.RoundsTo (whole * 10 ^ lastPlace magnitude count) mantissa exponent) :
    neighbour? .double (.finite negative mantissa exponent) negative ratio magnitude count ≠
      none := by
  obtain ⟨lower, upper⟩ := countUnits_bounds denominator (lastPlace magnitude count)
  intro missing
  unfold neighbour? at missing
  dsimp only at missing
  rw [← lastPlace, ← countUnits] at missing
  split at missing
  · simp at missing
  · simp at missing
  · simp at missing
  next belowFails aboveFails =>
    simp only [beq_eq_false_iff_ne, ne_eq, reads_iff nonzero] at belowFails aboveFails
    by_cases low : whole ≤ countUnits ratio (lastPlace magnitude count)
    · refine belowFails (reads.between double_proper self ?_ lower)
      gcongr
    · push_cast at aboveFails
      refine aboveFails (self.between double_proper reads upper.le ?_)
      gcongr
      exact_mod_cast not_le.mp low

/-- With seventeen digits the decimal next to a double is closer to it than any other double. -/
theorem exists_seventeen_digits (holds : double.Holds mantissa exponent) (nonzero : mantissa ≠ 0)
    (denominator : 0 < ratio.2) (value : ratioValue ratio = mantissa * 2 ^ exponent)
    (large : (10 : ℚ) ^ magnitude ≤ ratioValue ratio) :
    ∃ whole : Nat, double.RoundsTo (whole * 10 ^ lastPlace magnitude 17) mantissa exponent := by
  obtain ⟨lower, upper⟩ := countUnits_bounds denominator (lastPlace magnitude 17)
  have fine : (10 : ℚ) ^ lastPlace magnitude 17 * 10 ^ 16 ≤ ratioValue ratio := by
    calc (10 : ℚ) ^ lastPlace magnitude 17 * 10 ^ 16 = 10 ^ magnitude := by
          rw [← zpow_natCast, ← zpow_add₀ (by norm_num)]
          simp [lastPlace]
      _ ≤ ratioValue ratio := large
  have unit : (0 : ℚ) < 10 ^ lastPlace magnitude 17 := by positivity
  have margin : (10 : ℚ) ^ lastPlace magnitude 17 / 2 < ratioValue ratio * (1 / 2 ^ 54) := by
    linarith
  have close {decimal : ℚ} (low : ratioValue ratio - 10 ^ lastPlace magnitude 17 / 2 ≤ decimal)
      (high : decimal ≤ ratioValue ratio + 10 ^ lastPlace magnitude 17 / 2) :
      double.RoundsTo decimal mantissa exponent := by
    have bits : double.precision + 1 = 54 := rfl
    refine roundsTo_of_close double_proper holds nonzero ?_ ?_
    · rw [← value, bits]
      linarith
    · rw [← value, bits]
      linarith
  by_cases low : ratioValue ratio - 10 ^ lastPlace magnitude 17 / 2 ≤
      countUnits ratio (lastPlace magnitude 17) * 10 ^ lastPlace magnitude 17
  · exact ⟨_, close low (by linarith)⟩
  · refine ⟨countUnits ratio (lastPlace magnitude 17) + 1, close ?_ ?_⟩
    · push_cast
      linarith
    · push_cast
      linarith

end Neighbour

theorem exists_of_findSome?_range {α : Type} {test : Nat → Option α} {size : Nat} {found : α}
    (first : (List.range size).findSome? test = some found) :
    ∃ index < size, test index = some found ∧ ∀ earlier < index, test earlier = none := by
  obtain ⟨front, index, back, split, here, before⟩ := List.findSome?_eq_some_iff.mp first
  rw [List.range_eq_range'] at split
  obtain ⟨place, few, rfl, rest⟩ := List.range'_eq_append_iff.mp split
  obtain ⟨same, some, _⟩ := List.range'_eq_cons_iff.mp rest.symm
  refine ⟨index, by omega, here, fun earlier less => before earlier ?_⟩
  simp only [List.mem_range'_1]
  omega

section Shortest

variable {mantissa : Nat} {exponent : Int}

/-- A decimal next to a double, with no more digits than are needed to read as it. -/
structure IsShortest (mantissa : Nat) (exponent magnitude : Int) (count : Nat)
    (decimal : Decimal) : Prop where
  lower : (10 : ℚ) ^ magnitude ≤ mantissa * 2 ^ exponent
  upper : (mantissa : ℚ) * 2 ^ exponent < 10 ^ (magnitude + 1)
  reads : double.RoundsTo decimal.magnitudeValue mantissa exponent
  place : decimal.exponent = magnitude - count
  digits : decimal.coefficient ≤ 10 ^ (count + 1)
  fewest (whole index : Nat) :
    double.RoundsTo (whole * 10 ^ (magnitude - index)) mantissa exponent → count ≤ index

theorem log_two_bounds (holds : double.Holds mantissa exponent) (nonzero : mantissa ≠ 0) :
    -10000 ≤ Int.log 2 ((mantissa : ℚ) * 2 ^ exponent) ∧
      Int.log 2 ((mantissa : ℚ) * 2 ^ exponent) ≤ 10000 := by
  have rounds := roundsTo_self double_proper holds nonzero
  have least : -1074 ≤ exponent := rounds.exponent_bounds.2
  have greatest : exponent ≤ 971 := rounds.inside
  have one : (1 : ℚ) ≤ mantissa := by exact_mod_cast Nat.one_le_iff_ne_zero.mpr nonzero
  have lower : exponent ≤ Int.log 2 ((mantissa : ℚ) * 2 ^ exponent) := by
    rw [← Int.zpow_le_iff_le_log (by norm_num) rounds.positive]
    exact le_mul_of_one_le_left (by positivity) one
  have upper : Int.log 2 ((mantissa : ℚ) * 2 ^ exponent) < 53 + exponent := by
    rw [← Int.lt_zpow_iff_log_lt (by norm_num) rounds.positive]
    exact rounds.lt
  omega

theorem exists_isShortest (holds : double.Holds mantissa exponent) (nonzero : mantissa ≠ 0)
    (negative : Bool) : ∃ magnitude count decimal,
      IsShortest mantissa exponent magnitude count decimal ∧
      shortest .double negative mantissa exponent = decimal.trim := by
  have self := roundsTo_self double_proper holds nonzero
  have numerator : 0 < (scaleRatio 2 exponent (mantissa, 1)).1 :=
    scaleRatio_fst_pos _ (by norm_num) (Nat.pos_of_ne_zero nonzero)
  have denominator : 0 < (scaleRatio 2 exponent (mantissa, 1)).2 :=
    scaleRatio_snd_pos _ (by norm_num) (by norm_num)
  have value : ratioValue (scaleRatio 2 exponent (mantissa, 1)) = mantissa * 2 ^ exponent := by
    rw [ratioValue_scaleRatio _ _ (by norm_num), ratioValue]
    norm_num
  have bounds := log_two_bounds holds nonzero
  rw [← value] at self bounds
  have lower := Int.zpow_log_le_self (show 1 < 10 by norm_num) self.positive
  have upper := Int.lt_zpow_succ_log_self (show 1 < 10 by norm_num)
    (ratioValue (scaleRatio 2 exponent (mantissa, 1)))
  rw [shortest, if_neg nonzero]
  dsimp only
  rw [floorLog10_eq_log numerator denominator bounds.1 bounds.2]
  generalize Int.log 10 (ratioValue (scaleRatio 2 exponent (mantissa, 1))) = magnitude at *
  generalize scaleRatio 2 exponent (mantissa, 1) = ratio at *
  rw [Nat.cast_ofNat] at lower upper
  generalize searched : List.findSome? _ (List.range 17) = result
  have searched : (List.range 17).findSome? (fun index =>
    neighbour? .double (.finite negative mantissa exponent) negative ratio magnitude
      (index + 1)) = result := searched
  cases result with
  | none =>
      obtain ⟨whole, reads⟩ := exists_seventeen_digits holds nonzero denominator value lower
      rw [List.findSome?_eq_none_iff] at searched
      exact absurd (searched 16 (by simp)) (neighbour?_ne_none nonzero denominator self reads)
  | some decimal =>
      obtain ⟨count, few, found, before⟩ := exists_of_findSome?_range searched
      obtain ⟨reads, place, small⟩ := neighbour?_spec found
      have rounds := (toBinary_eq_finite_iff nonzero).mp reads
      simp only [lastPlace, Nat.add_sub_cancel] at place small
      refine ⟨magnitude, count, decimal, ⟨value ▸ lower, value ▸ upper, rounds.2, place, ?_, ?_⟩,
        if_pos ?_⟩
      · exact small.trans (countUnits_lt denominator upper count)
      · intro whole index wholeRounds
        by_contra later
        have reads : double.RoundsTo (whole * 10 ^ lastPlace magnitude (index + 1)) mantissa
            exponent := by simpa [lastPlace] using wholeRounds
        exact neighbour?_ne_none nonzero denominator self reads (before index (by omega))
      · rw [toBinary_eq_finite_iff nonzero, trim_magnitudeValue]
        exact rounds

theorem one_le_of_roundsTo (holds : double.Holds mantissa exponent) (nonzero : mantissa ≠ 0)
    {value : ℚ} (rounds : double.RoundsTo value mantissa exponent) (large : 1 ≤ value) :
    (1 : ℚ) ≤ mantissa * 2 ^ exponent := by
  by_contra small
  have between : double.RoundsTo 1 mantissa exponent :=
    (roundsTo_self double_proper holds nonzero).between double_proper rounds
      (not_le.mp small).le large
  have one : ((2 ^ 52 : Nat) : ℚ) * 2 ^ (-52 : Int) = 1 := by norm_num
  have held : double.Holds (2 ^ 52) (-52) := by
    right
    decide
  have exact := one ▸ roundsTo_self double_proper held (by norm_num)
  obtain ⟨rfl, rfl⟩ := between.unique exact
  exact small one.ge

namespace IsShortest

variable {magnitude : Int} {count coefficient places : Nat} {decimal : Decimal}

theorem neg_places_le (isShortest : IsShortest mantissa exponent magnitude count decimal)
    (rounds : double.RoundsTo (coefficient * 10 ^ (-places : Int)) mantissa exponent)
    (inside : -(places : Int) ≤ magnitude) : -(places : Int) ≤ decimal.exponent := by
  have unit : magnitude - (magnitude + places).toNat = -places := by omega
  have early : count ≤ (magnitude + places).toNat :=
    isShortest.fewest coefficient _ (by rwa [unit])
  have place := isShortest.place
  omega

theorem one_digit (isShortest : IsShortest mantissa exponent magnitude count decimal)
    (holds : double.Holds mantissa exponent) (nonzero : mantissa ≠ 0)
    (rounds : double.RoundsTo (coefficient * 10 ^ (-places : Int)) mantissa exponent)
    (outside : magnitude < -places) :
    count = 0 ∧ magnitude = -places - 1 ∧ 0 < places := by
  have self := roundsTo_self double_proper holds nonzero
  have next : (10 : ℚ) ^ (magnitude + 1) ≤ 10 ^ (-places : Int) :=
    zpow_le_zpow_right₀ (by norm_num) (by omega)
  have tenfold : (10 : ℚ) ^ (magnitude + 1) = 10 * 10 ^ magnitude := by
    rw [zpow_add_one₀ (by norm_num), mul_comm]
  have one : (1 : ℚ) ≤ coefficient := by
    have positive : 0 < coefficient := by
      by_contra empty
      have positive := rounds.positive
      simp [Nat.eq_zero_of_not_pos empty] at positive
    exact_mod_cast positive
  have above : (10 : ℚ) ^ (-places : Int) ≤ coefficient * 10 ^ (-places : Int) :=
    le_mul_of_one_le_left (by positivity) one
  refine ⟨?_, ?_, ?_⟩
  · refine Nat.le_zero.mp (isShortest.fewest 10 0 ?_)
    simp only [Nat.cast_zero, sub_zero, Nat.cast_ofNat, ← tenfold]
    exact self.between double_proper rounds isShortest.upper.le (next.trans above)
  · have powers : (10 : ℚ) ^ (-places : Int) < 10 ^ (magnitude + 2) := by
      calc (10 : ℚ) ^ (-places : Int) ≤ coefficient * 10 ^ (-places : Int) := above
        _ ≤ 3 * (mantissa * 2 ^ exponent) := rounds.le_three_mul double_proper nonzero self
        _ < 3 * 10 ^ (magnitude + 1) := mul_lt_mul_of_pos_left isShortest.upper (by norm_num)
        _ ≤ 10 * 10 ^ (magnitude + 1) := mul_le_mul_of_nonneg_right (by norm_num) (by positivity)
        _ = 10 ^ (magnitude + 2) := by
            rw [mul_comm, ← zpow_add_one₀ (by norm_num), add_assoc]
            rfl
    have order := (zpow_lt_zpow_iff_right₀ (by norm_num)).mp powers
    omega
  · by_contra whole
    obtain rfl : places = 0 := by omega
    have large := one_le_of_roundsTo holds nonzero rounds (by simpa using one)
    have small : (10 : ℚ) ^ (magnitude + 1) ≤ 1 := by simpa using next
    exact absurd (isShortest.upper.trans_le small) (not_lt.mpr large)

theorem trim_cases (isShortest : IsShortest mantissa exponent magnitude 0 decimal) :
    magnitude + 1 ≤ decimal.trim.exponent ∨
      decimal.trim.exponent = magnitude ∧ decimal.trim.magnitudeValue < 10 ^ (magnitude + 1) := by
  have larger := exponent_le_trim decimal
  have place := isShortest.place
  rw [Nat.cast_zero, sub_zero] at place
  by_cases same : decimal.trim.exponent = magnitude
  · have nonzero : decimal.coefficient ≠ 0 := by
      intro empty
      have positive := isShortest.reads.positive
      simp [magnitudeValue, empty] at positive
    have coefficientEq : decimal.trim.coefficient = decimal.coefficient := by
      have value := trim_magnitudeValue decimal
      rw [magnitudeValue, magnitudeValue, same, place] at value
      exact_mod_cast mul_right_cancel₀ (by positivity) value
    have few := isShortest.digits
    have ends := trim_coefficient_mod nonzero
    have small : decimal.trim.coefficient < 10 := by omega
    right
    refine ⟨same, ?_⟩
    rw [magnitudeValue, same, zpow_add_one₀ (by norm_num), mul_comm ((10 : ℚ) ^ magnitude)]
    exact mul_lt_mul_of_pos_right (by exact_mod_cast small) (by positivity)
  · left
    omega

end IsShortest

/--
The shortest decimal has no more places behind the point than any other decimal that reads as the
same double, or one more when it is less than one.
-/
theorem shortest_places (holds : double.Holds mantissa exponent) (nonzero : mantissa ≠ 0)
    (negative : Bool) {places coefficient : Nat}
    (rounds : double.RoundsTo (coefficient * 10 ^ (-places : Int)) mantissa exponent) :
    -places ≤ (shortest .double negative mantissa exponent).exponent ∨ 0 < places ∧
      (shortest .double negative mantissa exponent).exponent = -places - 1 ∧
      (shortest .double negative mantissa exponent).magnitudeValue < 1 := by
  obtain ⟨magnitude, count, decimal, isShortest, same⟩ := exists_isShortest holds nonzero negative
  rw [same]
  by_cases inside : -(places : Int) ≤ magnitude
  · exact Or.inl ((isShortest.neg_places_le rounds inside).trans (exponent_le_trim decimal))
  · obtain ⟨rfl, rfl, some⟩ := isShortest.one_digit holds nonzero rounds (by omega)
    rcases isShortest.trim_cases with more | ⟨unit, small⟩
    · left
      omega
    · refine Or.inr ⟨some, unit, small.trans_le ?_⟩
      exact zpow_le_one_of_nonpos₀ (by norm_num) (by omega)

end Shortest

end Decimal

end EntitySchema
