import EntitySchema.Proofs.Directives
import EntitySchema.Proofs.Number.Closest

/-!
The dimensions of a vector. All numbers are compared as doubles, and yet the dimensions that are
read are exact: whole numbers of 32 bits are doubles, and no other number is rounded to one of
them.
-/

namespace EntitySchema

def IntegerKind.Holds : IntegerKind → Int → Prop
  | .int32, number => Int32.minValue.toInt ≤ number ∧ number ≤ Int32.maxValue.toInt
  | .int, number | .int64, number =>
    Int64.minValue.toInt ≤ number ∧ number ≤ Int64.maxValue.toInt
  | .uint32, number => 0 ≤ number ∧ number < UInt32.size
  | .uint, number | .uint64, number => 0 ≤ number ∧ number < UInt64.size

theorem IntegerKind.Holds.natAbs_le {kind : IntegerKind} {number : Int}
    (holds : kind.Holds number) : number.natAbs ≤ 2 ^ 64 := by
  have signed : Int64.minValue.toInt = -9223372036854775808 ∧
      Int64.maxValue.toInt = 9223372036854775807 ∧
        Int32.minValue.toInt = -2147483648 ∧ Int32.maxValue.toInt = 2147483647 := by decide
  cases kind <;> simp only [IntegerKind.Holds, signed, UInt32.size, UInt64.size] at holds <;> omega

namespace Value

def IsSized : Value → Prop
  | .integer kind number => kind.Holds number
  | .single number => number.IsOf .single
  | .double number => number.IsOf .double
  | _ => True

/-- The value is this whole number, of any kind or format. -/
inductive IsWhole : Value → Int → Prop
  | integer (kind : IntegerKind) (whole : Int) : IsWhole (.integer kind whole) whole
  | single {number : Binary} {whole : Int} :
      number.value? = some (whole : ℚ) → IsWhole (.single number) whole
  | double {number : Binary} {whole : Int} :
      number.value? = some (whole : ℚ) → IsWhole (.double number) whole

end Value

namespace Directives

theorem value?_ofInt_iff {number dimensions : Int}
    (fits : Int32.minValue.toInt ≤ dimensions ∧ dimensions ≤ Int32.maxValue.toInt) :
    (Binary.ofInt .double number).value? = some (dimensions : ℚ) ↔ number = dimensions := by
  constructor
  · intro value
    by_cases small : number.natAbs < 2 ^ 53
    · exact Int.cast_injective (Option.some.inj ((Binary.value?_ofInt small).symm.trans value))
    · have far := Binary.le_abs_of_ofInt (not_lt.mp small) value
      have near := natAbs_lt_of_fits fits
      rw [← Int.cast_abs, ← Nat.cast_natAbs] at far
      exact absurd (by exact_mod_cast far) (not_le.mpr near)
  · rintro rfl
    exact Binary.value?_ofInt (natAbs_lt_of_fits fits)

theorem value?_convert_single {number : Binary} (isOf : number.IsOf .single) :
    (number.convert .double).value? = number.value? :=
  Binary.value?_convert BinaryFormat.double_proper isOf ⟨by decide, by decide⟩ (by decide)
    (by decide) (by decide)

theorem exists_asDouble?_iff {value : Value} (sized : value.IsSized) {dimensions : Int}
    (fits : Int32.minValue.toInt ≤ dimensions ∧ dimensions ≤ Int32.maxValue.toInt) :
    (∃ number, asDouble? value = some number ∧ number.value? = some (dimensions : ℚ)) ↔
      value.IsWhole dimensions := by
  cases value with
  | integer kind number =>
      simp only [asDouble?, Option.some.injEq, exists_eq_left', value?_ofInt_iff fits]
      constructor
      · rintro rfl
        exact .integer kind number
      · rintro ⟨⟩
        rfl
  | single number =>
      simp only [asDouble?, Option.some.injEq, exists_eq_left', value?_convert_single sized]
      exact ⟨.single, fun whole => by cases whole; assumption⟩
  | double number =>
      simp only [asDouble?, Option.some.injEq, exists_eq_left']
      exact ⟨.double, fun whole => by cases whole; assumption⟩
  | _ =>
      constructor
      · rintro ⟨number, found, _⟩
        simp [asDouble?] at found
      · rintro ⟨⟩

/--
The dimensions of a value are read if it is a whole number of 32 bits with sign, and then they are
that number. An integer is compared as the closest double, a tie going to the even mantissa.
-/
theorem dimensions_exact {value : Value} (sized : value.IsSized) :
    (∀ dimensions, dimensions? value = some dimensions ↔ value.IsWhole dimensions ∧
      Int32.minValue.toInt ≤ dimensions ∧ dimensions ≤ Int32.maxValue.toInt) ∧
    ∀ kind number, value = .integer kind number → ∃ negative mantissa exponent,
      asDouble? value = some (.finite negative mantissa exponent) ∧
        Binary.IsClosest .double number negative mantissa exponent := by
  constructor
  · intro dimensions
    rw [dimensions?_eq_some_iff]
    exact and_congr_left fun fits => exists_asDouble?_iff sized fits
  · rintro kind number rfl
    have holds : kind.Holds number := sized
    obtain ⟨negative, mantissa, exponent, found⟩ := Binary.exists_ofInt holds.natAbs_le
    exact ⟨negative, mantissa, exponent, by rw [asDouble?, found], Binary.isClosest_ofInt found⟩

theorem dimensions_exact_largest :
    (Value.single (.finite false 12582912 (-22))).IsSized ∧
      dimensions? (.single (.finite false 12582912 (-22))) = some 3 ∧
      (Value.integer .uint64 18446744073709551615).IsSized ∧
      dimensions? (.integer .uint64 18446744073709551615) = none ∧
        ∃ negative mantissa exponent,
          asDouble? (.integer .uint64 18446744073709551615) =
              some (.finite negative mantissa exponent) ∧
            Binary.IsClosest .double (18446744073709551615 : Int) negative mantissa exponent := by
  have single : (Value.single (.finite false 12582912 (-22))).IsSized :=
    Or.inr ⟨by decide, by decide, by decide, by decide⟩
  have three : (Binary.finite false 12582912 (-22)).value? = some ((3 : Int) : ℚ) := by
    norm_num [Binary.value?, Binary.signed]
  have largest : (Value.integer .uint64 18446744073709551615).IsSized := ⟨by decide, by decide⟩
  obtain ⟨read, rounded⟩ := dimensions_exact largest
  refine ⟨single, ((dimensions_exact single).1 3).mpr ⟨.single three, by decide, by decide⟩,
    largest, ?_, rounded .uint64 _ rfl⟩
  rw [Option.eq_none_iff_forall_ne_some]
  intro dimensions found
  obtain ⟨whole, _, below⟩ := (read dimensions).mp found
  cases whole
  exact absurd below (by decide)

end Directives

end EntitySchema
