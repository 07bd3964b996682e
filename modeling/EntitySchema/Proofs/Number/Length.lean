import EntitySchema.Proofs.Number.Numeral
import EntitySchema.Proofs.Number.Shortest

/-!
How long a number is. What a numeral is read as is written again with one byte more at most.
-/

namespace EntitySchema

open Text BinaryFormat

namespace Decimal

theorem length_renderPositional (coefficient : Nat) (exponent : Int) :
    (renderPositional (ofNat coefficient) exponent).length =
      if 0 ≤ exponent then digitCount coefficient + exponent.natAbs
      else max (exponent.natAbs + 1) (digitCount coefficient) + 1 := by
  unfold renderPositional padLeft
  split
  · rw [List.length_append, List.length_replicate, length_ofNat]
  · simp only [List.length_append, List.length_take, List.length_drop, List.length_replicate,
      length_ofNat, show (utf8 ".").length = 1 from rfl]
    omega

theorem IsUnsigned.exists_coefficient {text : Text} (unsigned : IsUnsigned text) :
    ∃ coefficient whole places : Nat, 0 < whole ∧ coefficient < 10 ^ (whole + places) ∧
      text.length = whole + places + (if places = 0 then 0 else 1) ∧
      ∀ negative, readUnsigned? negative text = some ⟨negative, coefficient, -places⟩ := by
  cases unsigned with
  | whole digits =>
      refine ⟨digitsValue text, text.length, 0, List.length_pos_iff.mpr digits.1,
        digitsValue_lt digits.2, by simp, fun negative => ?_⟩
      simpa using readUnsigned?_whole digits negative
  | @fraction whole fraction wholeDigits fractionDigits =>
      have some := List.length_pos_iff.mpr fractionDigits.1
      refine ⟨digitsValue (whole ++ fraction), whole.length, fraction.length,
        List.length_pos_iff.mpr wholeDigits.1, ?_, ?_,
        readUnsigned?_fraction wholeDigits fractionDigits⟩
      · rw [← List.length_append]
        exact digitsValue_lt (List.forall_mem_append.mpr ⟨wholeDigits.2, fractionDigits.2⟩)
      · rw [if_neg (by omega), List.length_append, List.length_cons]
        omega

theorem length_shortest_le {mantissa : Nat} {exponent : Int}
    (holds : double.Holds mantissa exponent) (nonzero : mantissa ≠ 0) (negative : Bool)
    {coefficient whole places : Nat} (some : 0 < whole)
    (small : coefficient < 10 ^ (whole + places))
    (rounds : double.RoundsTo (coefficient * 10 ^ (-places : Int)) mantissa exponent) :
    (renderPositional (ofNat (shortest .double negative mantissa exponent).coefficient)
      (shortest .double negative mantissa exponent).exponent).length ≤
        whole + places + (if places = 0 then 0 else 1) + 1 := by
  have shortestRounds := ((toBinary_eq_finite_iff nonzero).mp
    (shortest_toBinary negative holds)).2
  have few := shortest_places holds nonzero negative rounds
  generalize shortest .double negative mantissa exponent = decimal at *
  have present : decimal.coefficient ≠ 0 := by
    intro empty
    have positive := shortestRounds.positive
    simp [magnitudeValue, empty] at positive
  obtain ⟨lower, _⟩ := size_bounds present
  have wholeDigits : decimal.magnitudeValue < 10 ^ (whole + 1 : Int) := by
    have below : (coefficient : ℚ) < 10 ^ (whole + places) := by exact_mod_cast small
    calc decimal.magnitudeValue ≤ 3 * (coefficient * 10 ^ (-places : Int)) :=
          shortestRounds.le_three_mul double_proper nonzero rounds
      _ < 3 * (10 ^ (whole + places) * 10 ^ (-places : Int)) := by gcongr
      _ = 3 * 10 ^ (whole : Int) := by
          rw [← zpow_natCast, ← zpow_add₀ (by norm_num)]
          simp
      _ ≤ 10 * 10 ^ (whole : Int) := by gcongr; norm_num
      _ = 10 ^ (whole + 1 : Int) := by rw [zpow_add_one₀ (by norm_num), mul_comm]
  have size {bound : Int} (below : decimal.magnitudeValue < 10 ^ bound) :
      digitCount decimal.coefficient + decimal.exponent ≤ bound := by
    have order := (zpow_lt_zpow_iff_right₀ (by norm_num)).mp (lower.trans_lt below)
    omega
  have wholeSize := size wholeDigits
  rw [length_renderPositional]
  rcases few with inside | ⟨fraction, place, one⟩
  · split_ifs <;> omega
  · have smallSize := size (one.trans_eq (zpow_zero _).symm)
    rw [if_neg (by omega), if_neg (by omega)]
    omega

theorem length_render (decimal : Decimal) :
    (decimal.render .positional).length = decimal.negative.toNat +
      (renderPositional (ofNat decimal.coefficient) decimal.exponent).length := by
  rw [render_positional, List.length_append]
  cases decimal.negative <;> rfl

theorem length_render_of_unsigned {text : Text} (unsigned : IsUnsigned text) {negative : Bool}
    {found : Decimal} (read : readUnsigned? negative text = some found)
    (finite : (found.toBinary .double).isFinite = true) :
    ((found.toBinary .double).render .double .positional).length ≤
      negative.toNat + text.length + 1 := by
  obtain ⟨coefficient, whole, places, some, small, length, reads⟩ := unsigned.exists_coefficient
  obtain rfl := Option.some.inj ((reads negative).symm.trans read)
  cases value : (⟨negative, coefficient, -places⟩ : Decimal).toBinary .double with
  | finite sign mantissa exponent =>
      have isDouble := Binary.isDouble_toBinary finite
      rw [value] at isDouble
      rw [Binary.render, length_render]
      by_cases zero : mantissa = 0
      · have short : (renderPositional (ofNat 0) 0).length = 1 := rfl
        have signed := Bool.toNat_le sign
        simp only [shortest, if_pos zero, short]
        omega
      · obtain ⟨rfl, rounds⟩ := (toBinary_eq_finite_iff zero).mp value
        have bound := length_shortest_le isDouble zero negative some small rounds
        have signed := ((toBinary_eq_finite_iff zero).mp (shortest_toBinary negative isDouble)).1
        simp only [signed]
        omega
  | infinite => simp [value, Binary.isFinite] at finite
  | nan => simp [value, Binary.isFinite] at finite

end Decimal

open Decimal

/-- A double is written with one byte more at most than the numeral it is read from. -/
theorem Binary.length_render_le {text : Text} {value : Binary} (numeral : IsNumeral text)
    (read : readDouble? text = some value) :
    (value.render .double .positional).length ≤ text.length + 1 := by
  have bound {unsigned : Text} (isUnsigned : IsUnsigned unsigned) {negative : Bool}
      (same : Decimal.read? text = readUnsigned? negative unsigned) :
      (value.render .double .positional).length ≤ negative.toNat + unsigned.length + 1 := by
    unfold readDouble? at read
    split at read
    next => simp at read
    next decimal found =>
      dsimp only at read
      split at read
      next finite =>
        obtain rfl := Option.some.inj read
        exact length_render_of_unsigned isUnsigned (same.symm.trans found) finite
      next => simp at read
  cases numeral with
  | positive unsigned => simpa using bound unsigned unsigned.read?
  | @negative text unsigned =>
      have signed : (value.render .double .positional).length ≤ true.toNat + text.length + 1 :=
        bound unsigned rfl
      rw [List.length_cons]
      simp only [Bool.toNat_true] at signed
      omega

end EntitySchema
