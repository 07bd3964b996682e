import EntitySchema.Proofs.Json.Number

/-!
Doubles as JSON numbers. A finite double is written with or without an exponent, as its size asks
for, and the number that is written reads as the double.
-/

namespace EntitySchema

open Text

theorem Text.head?_ofNat {number : Nat} (positive : 0 < number) :
    (ofNat number).head? ≠ some 0x30 := by
  intro zero
  have isDigits := isDigits_ofNat number
  have value := digitsValue_ofNat number
  have length := Decimal.length_ofNat number
  obtain ⟨first, others, shape⟩ := List.exists_cons_of_ne_nil isDigits.1
  rw [shape] at zero isDigits value length
  obtain rfl := Option.some.inj zero
  have small := digitsValue_lt (List.forall_mem_cons.mp isDigits.2).2
  have split : digitsValue (0x30 :: others) = digitsValue others := by
    rw [← List.singleton_append, digitsValue_append]
    simp [digitsValue]
  have large := (Decimal.digitCount_bounds positive).1
  rw [← length, List.length_cons, Nat.add_sub_cancel] at large
  omega

namespace Json

theorem NumberIs.isNumber {text : Text} {decimal : Decimal} (is : NumberIs text decimal) :
    IsNumber text := by
  obtain ⟨isSign, isWhole, isFraction, isExponent⟩ := is
  exact .parts isSign isWhole isFraction isExponent

theorem isWhole_of_head {digits : Text} (isDigits : digits.IsDigits)
    (start : digits = [0x30] ∨ digits.head? ≠ some 0x30) : IsWhole digits := by
  rcases start with rfl | noZero
  · exact .zero
  · exact .digits isDigits noZero

end Json

namespace Decimal

open Json

def UnsignedIs (text : Text) (decimal : Decimal) : Prop :=
  ∃ whole fraction exponent : Text, text = whole ++ fraction ++ exponent ∧ IsWhole whole ∧
    IsFraction fraction ∧ IsExponent exponent ∧
    ∀ format, (⟨decimal.negative, digitsValue (whole ++ fraction.drop 1),
      exponentValue exponent - (fraction.drop 1).length⟩ : Decimal).toBinary format =
        decimal.toBinary format

theorem head_ofNat_cases (number : Nat) :
    ofNat number = [0x30] ∧ number = 0 ∨ (ofNat number).head? ≠ some 0x30 := by
  rcases Nat.eq_zero_or_pos number with rfl | positive
  · exact Or.inl ⟨rfl, rfl⟩
  · exact Or.inr (head?_ofNat positive)

theorem unsignedIs_positional {decimal : Decimal}
    (zero : decimal.coefficient = 0 → decimal.exponent ≤ 0) :
    UnsignedIs (renderPositional (ofNat decimal.coefficient) decimal.exponent) decimal := by
  obtain ⟨negative, coefficient, exponent⟩ := decimal
  have isDigits := isDigits_ofNat coefficient
  by_cases whole : 0 ≤ exponent
  · obtain ⟨count, rfl⟩ := Int.eq_ofNat_of_zero_le whole
    rw [renderPositional_of_nonneg _ whole]
    refine ⟨ofNat coefficient ++ List.replicate count 0x30, [], [], by simp,
      isWhole_of_head (isDigits_append_zeros isDigits _) ?_, .none, .none, fun format => ?_⟩
    · rcases head_ofNat_cases coefficient with ⟨single, empty⟩ | noZero
      · have none : count = 0 := by
          have small : (count : Int) ≤ 0 := zero empty
          omega
        exact Or.inl (by simp [single, none])
      · obtain ⟨first, others, shape⟩ := List.exists_cons_of_ne_nil isDigits.1
        rw [shape] at noZero ⊢
        exact Or.inr noZero
    · simp only [List.drop_nil, List.append_nil, digitsValue_append, digitsValue_zeros,
        digitsValue_ofNat, List.length_replicate, exponentValue, List.length_nil]
      exact toBinary_shift format negative coefficient count
  · obtain ⟨front, back, shape, frontDigits, backDigits, length, value, starts⟩ :=
      renderPositional_of_neg isDigits (by omega : exponent < 0)
    refine ⟨front, 0x2E :: back, [], by simpa using shape, isWhole_of_head frontDigits ?_,
      .digits backDigits, .none, fun format => ?_⟩
    · refine starts.imp id fun longer => ?_
      rw [longer.1]
      refine (head_ofNat_cases coefficient).resolve_left fun zero => ?_
      have long := longer.2
      rw [zero.1, List.length_singleton] at long
      omega
    · have sameExponent : -(back.length : Int) = exponent := by omega
      simp [exponentValue, value, digitsValue_ofNat, sameExponent]

def exponentText (magnitude : Int) : Text :=
  utf8 "e" ++ (if magnitude < 0 then utf8 "-" else utf8 "+") ++
    padLeft 1 (ofNat magnitude.natAbs)

theorem isExponent_exponentText (magnitude : Int) :
    IsExponent (exponentText magnitude) ∧ exponentValue (exponentText magnitude) = magnitude := by
  have digits := isDigits_padLeft (isDigits_ofNat magnitude.natAbs) 1
  have value : digitsValue (padLeft 1 (ofNat magnitude.natAbs)) = magnitude.natAbs := by
    rw [digitsValue_padLeft, digitsValue_ofNat]
  by_cases negative : magnitude < 0
  · rw [exponentText, if_pos negative]
    refine ⟨.digits (by decide) (show [0x2D] ∈ _ by decide) digits, ?_⟩
    change -(digitsValue (padLeft 1 (ofNat magnitude.natAbs)) : Int) = magnitude
    omega
  · rw [exponentText, if_neg negative]
    refine ⟨.digits (by decide) (show [0x2B] ∈ _ by decide) digits, ?_⟩
    change (digitsValue (padLeft 1 (ofNat magnitude.natAbs)) : Int) = magnitude
    omega

theorem unsignedIs_scientific {decimal : Decimal} (positive : decimal.coefficient ≠ 0) :
    UnsignedIs (renderScientific 1 (ofNat decimal.coefficient)
      (decimal.exponent + ((ofNat decimal.coefficient).length - 1 : Nat))) decimal := by
  obtain ⟨negative, coefficient, exponent⟩ := decimal
  have isDigits := isDigits_ofNat coefficient
  have noZero := head?_ofNat (Nat.pos_of_ne_zero positive)
  have value := digitsValue_ofNat coefficient
  obtain ⟨first, others, shape⟩ := List.exists_cons_of_ne_nil isDigits.1
  simp only [shape, List.length_cons, Nat.add_sub_cancel] at isDigits noZero value ⊢
  generalize size : exponent + (others.length : Int) = magnitude
  have digit := isDigits.2 first (by simp)
  have isWhole : IsWhole [first] := .digits ⟨by simp, by simpa using digit⟩ (by simpa using noZero)
  obtain ⟨isExponent, exponentIs⟩ := isExponent_exponentText magnitude
  have isFraction : IsFraction (if others.isEmpty then [] else 0x2E :: others) := by
    cases others with
    | nil => exact .none
    | cons next others =>
        exact .digits ⟨by simp, fun byte member => isDigits.2 byte (List.mem_cons_of_mem _ member)⟩
  have behind : (if others.isEmpty then [] else 0x2E :: others : Text).drop 1 = others := by
    cases others <;> rfl
  refine ⟨[first], _, _, ?_, isWhole, isFraction, isExponent, fun format => ?_⟩
  · simp [renderScientific, exponentText, show utf8 "." = [0x2E] from rfl]
  · rw [behind, exponentIs, List.singleton_append, value, ← size]
    congr 2
    omega

theorem numberIs_render {decimal : Decimal}
    (zero : decimal.coefficient = 0 → decimal.exponent ≤ 0) :
    ∃ found, NumberIs (decimal.render .json) found ∧
      ∀ format, found.toBinary format = decimal.toBinary format := by
  have unsigned : UnsignedIs (if decimal.coefficient ≠ 0 ∧ Layout.json.usesExponent
      (decimal.exponent + ((ofNat decimal.coefficient).length - 1 : Nat)) = true then
        renderScientific 1 (ofNat decimal.coefficient)
          (decimal.exponent + ((ofNat decimal.coefficient).length - 1 : Nat))
      else renderPositional (ofNat decimal.coefficient) decimal.exponent) decimal := by
    split
    next large => exact unsignedIs_scientific large.1
    next => exact unsignedIs_positional zero
  obtain ⟨whole, fraction, exponent, shape, isWhole, isFraction, isExponent, same⟩ := unsigned
  have sign : (if decimal.negative then utf8 "-" else []) ∈ ([[], [0x2D]] : List Text) := by
    cases decimal.negative <;> decide
  have number := NumberIs.parts sign isWhole isFraction isExponent
  have negative : decide ((if decimal.negative then utf8 "-" else []) ≠ []) = decimal.negative := by
    cases decimal.negative <;> rfl
  rw [List.append_assoc, List.append_assoc, ← List.append_assoc whole, ← shape, negative] at number
  exact ⟨_, number, same⟩

end Decimal

namespace Binary

open Json

/-- A double is written as a JSON number, and the number reads as the double. -/
theorem readDouble?_render_json {value : Binary} (isDouble : value.IsDouble) :
    IsNumber (value.render .double .json) ∧
      readDouble? (value.render .double .json) = some value := by
  cases value with
  | infinite => exact isDouble.elim
  | nan => exact isDouble.elim
  | finite negative mantissa exponent =>
      have shortest := Decimal.shortest_toBinary negative isDouble
      have zero : (Decimal.shortest .double negative mantissa exponent).coefficient = 0 →
          (Decimal.shortest .double negative mantissa exponent).exponent ≤ 0 := by
        intro none
        by_cases empty : mantissa = 0
        · simp [Decimal.shortest, empty]
        · rw [Decimal.toBinary, if_pos none] at shortest
          simp only [Binary.zero, finite.injEq] at shortest
          exact absurd shortest.2.1.symm empty
      obtain ⟨found, is, same⟩ := Decimal.numberIs_render zero
      have value := (same .double).trans shortest
      exact ⟨is.isNumber, by simp [readDouble?, render, is.read?, value, isFinite]⟩

end Binary

end EntitySchema
