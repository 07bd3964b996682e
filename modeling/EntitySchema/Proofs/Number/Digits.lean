import EntitySchema.Field.Parse
import Mathlib.Data.List.Induction
import Mathlib.Data.List.TakeWhile
import Mathlib.Tactic.Ring

/-!
Decimal digits. Writing a natural number and reading its digits gives the number back, and zeros
on either side shift or keep it.
-/

namespace EntitySchema

namespace Text

def IsDigits (text : Text) : Prop := text ≠ [] ∧ ∀ byte ∈ text, isAsciiDigit byte = true

theorem isAsciiDigit_iff (byte : Byte) :
    isAsciiDigit byte = true ↔ 0x30 ≤ byte.toNat ∧ byte.toNat ≤ 0x39 := by
  simp [isAsciiDigit, UInt8.le_iff_toNat_le]

theorem digit_toNat {digit : Char} (isDigit : digit.isDigit = true) :
    0x30 ≤ digit.toNat ∧ digit.toNat ≤ 0x39 := by
  simpa [Char.isDigit, UInt32.le_iff_toNat_le] using isDigit

theorem isDigits_ofNat (number : Nat) : (ofNat number).IsDigits := by
  refine ⟨by simp [ofNat, Nat.toDigits_ne_nil], ?_⟩
  intro byte member
  obtain ⟨digit, inside, rfl⟩ := List.mem_map.mp member
  have bounds := digit_toNat (Nat.isDigit_of_mem_toDigits (by decide) (by decide) inside)
  rw [isAsciiDigit_iff, UInt8.toNat_ofNat_of_lt' (by simp [UInt8.size]; omega)]
  exact bounds

theorem digitsValue_append (left right : Text) :
    digitsValue (left ++ right) = digitsValue left * 10 ^ right.length + digitsValue right := by
  have shift : ∀ (digits : Text) (start : Nat),
      digits.foldl (fun value digit => value * 10 + (digit.toNat - 0x30)) start =
        start * 10 ^ digits.length + digitsValue digits := by
    intro digits
    induction digits with
    | nil => simp [digitsValue]
    | cons digit digits ih =>
        intro start
        rw [digitsValue, List.foldl_cons, List.foldl_cons, ih, ih (0 * 10 + _), List.length_cons]
        ring
  rw [digitsValue, List.foldl_append, shift]
  rfl

theorem digitsValue_zeros (count : Nat) : digitsValue (List.replicate count 0x30) = 0 := by
  induction count with
  | zero => rfl
  | succ count ih => rw [List.replicate_succ', digitsValue_append, ih]; rfl

theorem digitsValue_ofNat (number : Nat) : digitsValue (ofNat number) = number := by
  have run : ∀ (digits : List Char) (start : Nat), (∀ digit ∈ digits, digit.isDigit = true) →
      (digits.map fun digit => digit.toNat.toUInt8).foldl
        (fun value digit => value * 10 + (digit.toNat - 0x30)) start =
          Nat.ofDigitChars 10 digits start := by
    intro digits
    induction digits with
    | nil => intro start _; rfl
    | cons digit digits ih =>
        intro start all
        rw [List.forall_mem_cons] at all
        have bounds := digit_toNat all.1
        rw [List.map_cons, List.foldl_cons, ih _ all.2, Nat.ofDigitChars_cons,
          UInt8.toNat_ofNat_of_lt' (by simp [UInt8.size]; omega), Nat.mul_comm]
        rfl
  rw [digitsValue, ofNat, run _ _ fun digit member =>
    Nat.isDigit_of_mem_toDigits (by decide) (by decide) member]
  exact Nat.ofDigitChars_ten_toDigits

theorem digitsValue_lt {digits : Text} (all : ∀ byte ∈ digits, isAsciiDigit byte = true) :
    digitsValue digits < 10 ^ digits.length := by
  induction digits using List.reverseRecOn with
  | nil => simp [digitsValue]
  | append_singleton digits byte ih =>
      rw [List.forall_mem_append] at all
      have range := (isAsciiDigit_iff byte).mp (all.2 byte (by simp))
      have front := ih all.1
      have last : digitsValue [byte] = byte.toNat - 0x30 := by simp [digitsValue]
      rw [digitsValue_append, List.length_append, List.length_singleton, Nat.pow_succ, last]
      omega

end Text

namespace Decimal

theorem length_ofNat (number : Nat) : (Text.ofNat number).length = digitCount number := by
  simp [Text.ofNat, digitCount]

theorem takeWhile_digits {digits : Text} (isDigits : digits.IsDigits) {tail : Text}
    (stops : ∀ byte ∈ tail.head?, Text.isAsciiDigit byte = false) :
    (digits ++ tail).takeWhile Text.isAsciiDigit = digits ∧
      (digits ++ tail).dropWhile Text.isAsciiDigit = tail := by
  rw [List.takeWhile_append_of_pos isDigits.2, List.dropWhile_append_of_pos isDigits.2]
  cases tail with
  | nil => simp
  | cons byte tail => simp [stops byte (by simp)]

theorem digitCount_pos (number : Nat) : 0 < digitCount number := Nat.length_toDigits_pos

theorem digitCount_le_iff {number count : Nat} (positive : 0 < count) :
    digitCount number ≤ count ↔ number < 10 ^ count :=
  Nat.length_toDigits_le_iff (by decide) positive

theorem digitCount_bounds {number : Nat} (positive : 0 < number) :
    10 ^ (digitCount number - 1) ≤ number ∧ number < 10 ^ digitCount number := by
  have upper := (digitCount_le_iff (digitCount_pos number)).mp (Nat.le_refl (digitCount number))
  refine ⟨?_, upper⟩
  cases fewer : digitCount number - 1 with
  | zero => exact positive
  | succ count =>
      have short : ¬digitCount number ≤ count + 1 := by omega
      rw [digitCount_le_iff (by omega)] at short
      omega

theorem digitCount_mul_ten {number : Nat} (positive : 0 < number) :
    digitCount (number * 10) = digitCount number + 1 := by
  have appended := Nat.toDigits_append_toDigits (show 1 < 10 by decide) positive
    (show 0 < 10 by decide)
  rw [Nat.add_zero, Nat.mul_comm] at appended
  rw [digitCount, ← appended, List.length_append]
  rfl

theorem digitCount_mul_pow {number : Nat} (positive : 0 < number) (count : Nat) :
    digitCount (number * 10 ^ count) = digitCount number + count := by
  induction count with
  | zero => simp
  | succ count ih =>
      have scaled : 0 < number * 10 ^ count := Nat.mul_pos positive (Nat.pow_pos (by decide))
      rw [Nat.pow_succ, ← Nat.mul_assoc, digitCount_mul_ten scaled, ih, Nat.add_assoc]

end Decimal

theorem Text.IsDigits.no_sign {text : Text} (digits : text.IsDigits) :
    text.head? ≠ some 0x2D ∧ text.head? ≠ some 0x2B := by
  obtain ⟨first, rest, rfl⟩ := List.exists_cons_of_ne_nil digits.1
  have isDigit := digits.2 first (by simp)
  constructor <;> intro same <;> obtain rfl := Option.some.inj same <;>
    simp [isAsciiDigit] at isDigit

theorem readInteger?_of_isDigits {text : Text} (digits : text.IsDigits)
    (small : Text.digitsValue text < 2 ^ 63) :
    readInteger? text = some (Text.digitsValue text : Int) := by
  obtain ⟨notMinus, notPlus⟩ := digits.no_sign
  have all : text.all Text.isAsciiDigit = true := List.all_eq_true.mpr digits.2
  have range : Int64.minValue.toInt ≤ Text.digitsValue text ∧
      (Text.digitsValue text : Int) ≤ Int64.maxValue.toInt := by
    rw [Int64.toInt_minValue, Int64.toInt_maxValue]
    omega
  simp only [readInteger?, notMinus, notPlus, decide_false, Bool.or_self, Bool.false_eq_true,
    if_false, all, Bool.not_true, Bool.or_false, List.isEmpty_iff, digits.1]
  rw [if_pos range]

theorem ofInt_of_nonneg {number : Int} (nonnegative : 0 ≤ number) :
    Text.ofInt number = Text.ofNat number.natAbs := by
  rw [Text.ofInt, if_neg (by omega)]

theorem readInteger?_ofInt {number : Int} (nonnegative : 0 ≤ number) (small : number < 2 ^ 63) :
    readInteger? (Text.ofInt number) = some number := by
  have value := Text.digitsValue_ofNat number.natAbs
  have read := readInteger?_of_isDigits (Text.isDigits_ofNat number.natAbs) (by omega)
  rw [ofInt_of_nonneg nonnegative, read, value, Int.natAbs_of_nonneg nonnegative]

end EntitySchema
