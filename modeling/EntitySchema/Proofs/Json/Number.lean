import EntitySchema.Proofs.Json.Scalar
import EntitySchema.Proofs.Number.RoundTrip
import EntitySchema.Proofs.Number.Numeral
import EntitySchema.Yaml.Resolve

/-!
JSON numbers as YAML scalars. A number without fraction and exponent is an integer as far as 64 bits
go; every other number is the double next to it.
-/

namespace EntitySchema

open Text Yaml

namespace Json

def exponentValue : Text → Int
  | _ :: 0x2D :: digits => -digitsValue digits
  | _ :: 0x2B :: digits => digitsValue digits
  | _ :: digits => digitsValue digits
  | [] => 0

inductive NumberIs : Text → Decimal → Prop
  | parts {sign whole fraction exponent : Text} : sign ∈ [[], [0x2D]] → IsWhole whole →
      IsFraction fraction → IsExponent exponent →
      NumberIs (sign ++ whole ++ fraction ++ exponent)
        ⟨sign ≠ [], digitsValue (whole ++ fraction.drop 1),
          exponentValue exponent - (fraction.drop 1).length⟩

theorem IsNumber.exists_decimal {text : Text} (isNumber : IsNumber text) :
    ∃ decimal, NumberIs text decimal := by
  obtain ⟨isSign, isWhole, isFraction, isExponent⟩ := isNumber
  exact ⟨_, .parts isSign isWhole isFraction isExponent⟩

end Json

namespace Decimal

def value (decimal : Decimal) : ℚ :=
  if decimal.negative then -decimal.magnitudeValue else decimal.magnitudeValue

end Decimal

namespace Json

inductive NumberAgrees (text : Text) : Value → Prop
  | integer {kind : IntegerKind} {number : Int} {decimal : Decimal} : NumberIs text decimal →
      decimal.value = number → NumberAgrees text (.integer kind number)
  | double {decimal : Decimal} : NumberIs text decimal →
      (∀ number : Int, text = ofInt number → number < -2 ^ 63 ∨ 2 ^ 64 ≤ number) →
      NumberAgrees text (.double (decimal.toBinary .double))

def partMarks : Text := [0x2E, 0x65, 0x45]

theorem not_digit_of_mark {mark : Byte} (isMark : mark ∈ partMarks) :
    isAsciiDigit mark = false ∧ mark ≠ 0x2D := by
  have all : ∀ mark ∈ partMarks, isAsciiDigit mark = false ∧ mark ≠ 0x2D :=
    forall_mem_of_all (by decide)
  exact all mark isMark

theorem head_of_parts {fraction exponent : Text} (isFraction : IsFraction fraction)
    (isExponent : IsExponent exponent) :
    fraction ++ exponent = [] ∨ ∃ mark rest, fraction ++ exponent = mark :: rest ∧
      mark ∈ partMarks := by
  cases isFraction with
  | digits => exact Or.inr ⟨_, _, rfl, by decide⟩
  | none =>
      cases isExponent with
      | none => exact Or.inl rfl
      | digits isMark =>
          exact Or.inr ⟨_, _, rfl, List.mem_cons_of_mem _ isMark⟩

theorem readExponent?_exponent {exponent : Text} (isExponent : IsExponent exponent) :
    Decimal.readExponent? exponent = some (exponentValue exponent) := by
  cases isExponent with
  | none => rfl
  | digits isMark isSign isDigits =>
      rename_i mark sign digits
      obtain ⟨first, others, rfl⟩ := List.exists_cons_of_ne_nil isDigits.1
      obtain ⟨notMinus, notPlus⟩ := isDigits.no_sign
      have all : (first :: others).all isAsciiDigit = true := List.all_eq_true.mpr isDigits.2
      have isMark : mark = 0x65 ∨ mark = 0x45 := by simpa using isMark
      simp only [List.head?_cons, ne_eq, Option.some.injEq] at notMinus notPlus
      simp only [List.mem_cons, List.not_mem_nil, or_false] at isSign
      rcases isSign with rfl | rfl | rfl
      · simp [Decimal.readExponent?, exponentValue, isMark, notMinus, notPlus, all]
      · simp [Decimal.readExponent?, exponentValue, isMark, all]
      · simp [Decimal.readExponent?, exponentValue, isMark, all]

theorem readUnsigned?_parts {whole fraction exponent : Text} (isWhole : IsWhole whole)
    (isFraction : IsFraction fraction) (isExponent : IsExponent exponent) (negative : Bool) :
    Decimal.readUnsigned? negative (whole ++ (fraction ++ exponent)) =
      some ⟨negative, digitsValue (whole ++ fraction.drop 1),
        exponentValue exponent - (fraction.drop 1).length⟩ := by
  have stops : ∀ byte ∈ exponent.head?, isAsciiDigit byte = false ∧ byte ≠ 0x2E := by
    cases isExponent with
    | none => simp
    | digits isMark =>
        have all : ∀ mark ∈ ([0x65, 0x45] : Text), isAsciiDigit mark = false ∧ mark ≠ 0x2E :=
          forall_mem_of_all (by decide)
        rintro byte ⟨⟩
        exact all _ isMark
  have read := readExponent?_exponent isExponent
  have nonempty := isWhole.isDigits.1
  cases isFraction with
  | none =>
      obtain ⟨taken, dropped⟩ := Decimal.takeWhile_digits isWhole.isDigits
        fun byte first => (stops byte first).1
      have noPoint : ∀ rest, exponent ≠ 0x2E :: rest := by
        rintro rest rfl
        exact (stops _ rfl).2 rfl
      simp [Decimal.readUnsigned?, taken, dropped, nonempty, read]
  | digits isDigits =>
      rename_i digits
      have point : ∀ byte ∈ (0x2E :: (digits ++ exponent) : Text).head?,
          isAsciiDigit byte = false := by
        rintro byte ⟨⟩
        decide
      obtain ⟨taken, dropped⟩ := Decimal.takeWhile_digits isWhole.isDigits point
      obtain ⟨fractionTaken, fractionDropped⟩ := Decimal.takeWhile_digits isDigits
        fun byte first => (stops byte first).1
      simp [Decimal.readUnsigned?, taken, dropped, fractionTaken, fractionDropped, nonempty, read]

theorem NumberIs.read? {text : Text} {decimal : Decimal} (is : NumberIs text decimal) :
    Decimal.read? text = some decimal := by
  obtain ⟨isSign, isWhole, isFraction, isExponent⟩ := is
  have read := readUnsigned?_parts isWhole isFraction isExponent
  rcases sign_cases isSign with rfl | rfl
  · obtain ⟨notMinus, notPlus⟩ := isWhole.isDigits.no_sign
    obtain ⟨first, others, rfl⟩ := List.exists_cons_of_ne_nil isWhole.isDigits.1
    simp only [List.head?_cons, ne_eq, Option.some.injEq] at notMinus notPlus
    have unsigned := read false
    simp only [List.nil_append, List.append_assoc]
    simp only [List.cons_append] at unsigned ⊢
    rw [Decimal.read?]
    · simpa using unsigned
    · rintro rest ⟨⟩
      exact notMinus rfl
    · rintro rest ⟨⟩
      exact notPlus rfl
  · have unsigned := read true
    simpa [Decimal.read?] using unsigned

theorem numberIn?_append (base : Nat) (left right : Text) :
    numberIn? base (left ++ right) =
      (numberIn? base left).bind fun value =>
        right.foldlM (fun value byte => (digitIn? base byte).map (value * base + ·)) value := by
  simp [numberIn?, List.foldlM_append]

theorem numberIn?_digits {digits : Text} (all : ∀ byte ∈ digits, isAsciiDigit byte = true) :
    numberIn? 10 digits = some (digitsValue digits) := by
  induction digits using List.reverseRecOn with
  | nil => rfl
  | append_singleton digits byte ih =>
      rw [List.forall_mem_append] at all
      have isDigit := all.2 byte (by simp)
      have range := (isAsciiDigit_iff byte).mp isDigit
      have value : digitIn? 10 byte = some (byte.toNat - 0x30) := by
        have small : byte.toNat - 0x30 < 10 := by omega
        simp [digitIn?, isDigit, small]
      rw [numberIn?_append, ih all.1, digitsValue_append]
      simp [value, digitsValue]

theorem numberIn?_mark {base : Nat} {mark : Byte} (none : digitIn? base mark = none)
    (front behind : Text) : numberIn? base (front ++ mark :: behind) = .none := by
  rw [numberIn?_append]
  cases numberIn? base front with
  | none => rfl
  | some value => simp [none]

theorem unsigned?_whole {whole : Text} (isWhole : IsWhole whole) :
    unsigned? whole = some (digitsValue whole) := by
  cases isWhole with
  | zero => rfl
  | digits isDigits noZero =>
      obtain ⟨first, others, rfl⟩ := List.exists_cons_of_ne_nil isDigits.1
      have noZero : first ≠ 0x30 := by simpa using noZero
      rw [unsigned?]
      · exact numberIn?_digits isDigits.2
      all_goals simp [noZero]

theorem unsigned?_marked {whole : Text} (isWhole : IsWhole whole) {mark : Byte}
    (isMark : mark ∈ partMarks) (rest : Text) :
    unsigned? (whole ++ mark :: rest) = none := by
  have marks : ∀ mark ∈ partMarks, digitIn? 8 mark = none ∧
      digitIn? 10 mark = none ∧ mark ≠ 0x62 ∧ mark ≠ 0x42 ∧ mark ≠ 0x6F ∧ mark ≠ 0x4F ∧
      mark ≠ 0x78 ∧ mark ≠ 0x58 := forall_mem_of_all (by decide)
  obtain ⟨noOctal, noDecimal, others⟩ := marks mark isMark
  cases isWhole with
  | zero =>
      cases rest with
      | nil => exact numberIn?_mark noOctal [] []
      | cons digit rest =>
          have octal := numberIn?_mark noOctal [] (digit :: rest)
          simpa [unsigned?, others] using octal
  | digits isDigits noZero =>
      obtain ⟨first, behind, rfl⟩ := List.exists_cons_of_ne_nil isDigits.1
      have noZero : first ≠ 0x30 := by simpa using noZero
      rw [List.cons_append, unsigned?]
      · exact numberIn?_mark noDecimal (first :: behind) rest
      all_goals simp [noZero]

theorem unsigned?_minus (rest : Text) : unsigned? (0x2D :: rest) = none :=
  numberIn?_mark rfl [] rest

def signed (sign : Text) (size : Nat) : Int := if sign = [] then size else -size

theorem signedWith?_sign {sign : Text} (isSign : sign ∈ ([[], [0x2D]] : List Text)) {first : Byte}
    (digit : isAsciiDigit first = true) (others : Text) :
    signedWith? unsigned? (sign ++ first :: others) =
      (unsigned? (first :: others)).bind fun size =>
        if Int64.minValue.toInt ≤ signed sign size ∧ signed sign size ≤ Int64.maxValue.toInt then
          some (signed sign size) else none := by
  have noSign : first ≠ 0x2D ∧ first ≠ 0x2B := by
    refine ⟨?_, ?_⟩ <;> rintro rfl <;> exact absurd digit (by decide)
  rcases sign_cases isSign with rfl | rfl <;> cases read : unsigned? (first :: others) <;>
    simp [signedWith?, signed, noSign, read]

theorem wholeNumber?_marked {sign whole : Text} (isSign : sign ∈ ([[], [0x2D]] : List Text))
    (isWhole : IsWhole whole) {mark : Byte} (isMark : mark ∈ partMarks)
    (rest : Text) : wholeNumber? (sign ++ (whole ++ mark :: rest)) = none := by
  have marked := unsigned?_marked isWhole isMark rest
  obtain ⟨first, others, rfl⟩ := List.exists_cons_of_ne_nil isWhole.isDigits.1
  have digit := isWhole.isDigits.2 first (by simp)
  rw [List.cons_append] at marked
  rw [List.cons_append, wholeNumber?, signedWith?_sign isSign digit, marked]
  rcases sign_cases isSign with rfl | rfl
  · rw [List.nil_append, marked]
    rfl
  · rw [List.singleton_append, unsigned?_minus]
    rfl

theorem wholeNumber?_whole {sign whole : Text} (isSign : sign ∈ ([[], [0x2D]] : List Text))
    (isWhole : IsWhole whole) :
    (∃ kind, wholeNumber? (sign ++ whole) =
      some (.integer kind (signed sign (digitsValue whole)))) ∨
      wholeNumber? (sign ++ whole) = none ∧ (signed sign (digitsValue whole) < -2 ^ 63 ∨
        2 ^ 64 ≤ signed sign (digitsValue whole)) := by
  have read := unsigned?_whole isWhole
  obtain ⟨first, others, rfl⟩ := List.exists_cons_of_ne_nil isWhole.isDigits.1
  have digit := isWhole.isDigits.2 first (by simp)
  rw [wholeNumber?, signedWith?_sign isSign digit, read]
  simp only [Option.bind_some, Int64.toInt_minValue, Int64.toInt_maxValue]
  generalize digitsValue (first :: others) = size at read ⊢
  by_cases range : -2 ^ 63 ≤ signed sign size ∧ signed sign size ≤ 2 ^ 63 - 1
  · rw [if_pos (by simpa using range)]
    exact Or.inl ⟨.int, rfl⟩
  · rw [if_neg (by simpa using range)]
    -- beyond the signed range, only a number without a minus has a second chance
    rcases sign_cases isSign with rfl | rfl
    · rw [List.nil_append, read]
      simp only [signed, if_true] at range ⊢
      by_cases small : size < UInt64.size
      · rw [if_pos small]
        exact Or.inl ⟨.uint64, rfl⟩
      · rw [if_neg small]
        refine Or.inr ⟨rfl, Or.inr ?_⟩
        simp only [UInt64.size] at small
        omega
    · rw [List.singleton_append, unsigned?_minus]
      refine Or.inr ⟨rfl, ?_⟩
      simp only [signed, List.cons_ne_nil, if_false] at range ⊢
      omega

theorem numberIs_whole {sign whole : Text} (isSign : sign ∈ ([[], [0x2D]] : List Text))
    (isWhole : IsWhole whole) :
    NumberIs (sign ++ whole) ⟨sign ≠ [], digitsValue whole, 0⟩ := by
  simpa [exponentValue] using NumberIs.parts isSign isWhole .none .none

theorem value_whole (sign : Text) (size : Nat) :
    (⟨sign ≠ [], size, 0⟩ : Decimal).value = signed sign size := by
  by_cases positive : sign = [] <;>
    simp [Decimal.value, Decimal.magnitudeValue, signed, positive]

theorem eq_signed_of_ofInt {sign whole : Text} (isSign : sign ∈ ([[], [0x2D]] : List Text))
    (isWhole : IsWhole whole) {number : Int} (same : sign ++ whole = ofInt number) :
    number = signed sign (digitsValue whole) := by
  have digits := isDigits_ofNat number.natAbs
  have size := digitsValue_ofNat number.natAbs
  rw [ofInt] at same
  -- the sign of the text is the sign of the number: digits alone start with no minus
  by_cases negative : number < 0
  · rw [if_pos negative] at same
    rcases sign_cases isSign with rfl | rfl
    · rw [List.nil_append] at same
      exact absurd (by rw [same]; rfl) isWhole.isDigits.no_sign.1
    · obtain ⟨_, rfl⟩ := List.cons.inj same
      rw [size]
      simp only [signed, List.cons_ne_nil, if_false]
      omega
  · rw [if_neg negative] at same
    rcases sign_cases isSign with rfl | rfl
    · rw [List.nil_append] at same
      rw [same, size]
      simp only [signed, if_true]
      omega
    · exact absurd (by rw [← same]; rfl) digits.no_sign.1

theorem not_ofInt_of_mark {text : Text} {mark : Byte}
    (isMark : mark ∈ partMarks) (inside : mark ∈ text) (number : Int) :
    text ≠ ofInt number := by
  have noDigit := not_digit_of_mark isMark
  have digits := (isDigits_ofNat number.natAbs).2
  rintro rfl
  rw [ofInt] at inside
  split at inside
  · rcases List.mem_cons.mp inside with rfl | inside
    · exact noDigit.2 rfl
    · exact absurd (digits mark inside) (by simp [noDigit.1])
  · exact absurd (digits mark inside) (by simp [noDigit.1])

theorem IsNumber.cases {text : Text} (isNumber : IsNumber text) :
    ∃ sign whole, sign ∈ ([[], [0x2D]] : List Text) ∧ IsWhole whole ∧
      (text = sign ++ whole ∨ ∃ mark rest, text = sign ++ (whole ++ mark :: rest) ∧
        mark ∈ partMarks) := by
  obtain @⟨sign, whole, fraction, exponent, isSign, isWhole, isFraction, isExponent⟩ := isNumber
  refine ⟨sign, whole, isSign, isWhole, ?_⟩
  rw [List.append_assoc, List.append_assoc]
  rcases head_of_parts isFraction isExponent with nothing | ⟨mark, rest, more, isMark⟩
  · exact Or.inl (by rw [nothing, List.append_nil])
  · exact Or.inr ⟨mark, rest, by rw [more], isMark⟩

/-- A number that is read as an integer or else as a double is read as what is written. -/
theorem exists_agreeing {text : Text} (isNumber : IsNumber text)
    (readable : Binary.readDouble? text ≠ none) :
    ∃ value, NumberAgrees text value ∧ (wholeNumber? text = some value ∨
      wholeNumber? text = none ∧ (Binary.readDouble? text).map Value.double = some value) := by
  obtain ⟨decimal, is⟩ := isNumber.exists_decimal
  have double : Binary.readDouble? text = some (decimal.toBinary .double) := by
    rw [Binary.readDouble?, is.read?] at readable ⊢
    dsimp only at readable ⊢
    split at readable
    next finite => rw [if_pos finite]
    next => exact absurd rfl readable
  obtain ⟨sign, whole, isSign, isWhole, rfl | ⟨mark, rest, rfl, isMark⟩⟩ := isNumber.cases
  · rcases wholeNumber?_whole isSign isWhole with ⟨kind, read⟩ | ⟨none, large⟩
    · exact ⟨_, .integer (numberIs_whole isSign isWhole) (value_whole sign _ ▸ rfl), Or.inl read⟩
    · refine ⟨_, .double is fun number same => ?_, Or.inr ⟨none, by rw [double]; rfl⟩⟩
      rwa [eq_signed_of_ofInt isSign isWhole same]
  · have none := wholeNumber?_marked isSign isWhole isMark rest
    refine ⟨_, .double is fun number same => ?_, Or.inr ⟨none, by rw [double]; rfl⟩⟩
    exact absurd same (not_ofInt_of_mark isMark (by simp) number)

theorem readDigits?_four (text : Text) :
    Timestamp.readDigits? 4 4 text = none ∨
      ∃ number, Timestamp.readDigits? 4 4 text = some (number, text.drop 4) := by
  have most : ((text.take 4).takeWhile isAsciiDigit).length ≤ 4 :=
    (List.takeWhile_prefix _).length_le.trans (List.length_take_le _ _)
  rw [Timestamp.readDigits?]
  split
  next => exact Or.inl rfl
  next enough =>
    have all : ((text.take 4).takeWhile isAsciiDigit).length = 4 := by omega
    exact Or.inr ⟨_, by rw [all]⟩

theorem expect?_dash_number {text : Text} (isNumber : IsNumber text)
    (four : (text.takeWhile isAsciiDigit).length = 4) :
    Timestamp.expect? 0x2D (text.drop 4) = none := by
  obtain ⟨sign, whole, isSign, isWhole, shape⟩ := isNumber.cases
  have digits := isWhole.isDigits
  rcases sign_cases isSign with rfl | rfl
  · rcases shape with rfl | ⟨mark, rest, rfl, isMark⟩
    · have size : text.length = 4 := by
        simpa [List.takeWhile_eq_self_iff.mpr digits.2] using four
      simp [← size, Timestamp.expect?]
    · obtain ⟨noDigit, noDash⟩ := not_digit_of_mark isMark
      have stops : ∀ byte ∈ (mark :: rest).head?, isAsciiDigit byte = false := by
        rintro byte ⟨⟩
        exact noDigit
      obtain ⟨taken, _⟩ := Decimal.takeWhile_digits digits stops
      have size : whole.length = 4 := by simpa [taken] using four
      simp [← size, Timestamp.expect?, noDash]
  · rcases shape with rfl | ⟨mark, rest, rfl, isMark⟩ <;> simp [isAsciiDigit] at four

theorem timestamp?_number {text : Text} (isNumber : IsNumber text) : timestamp? text = none := by
  rw [timestamp?]
  split
  next => rfl
  next four =>
    have noDate : Timestamp.readDate? text = none := by
      have noDash := expect?_dash_number isNumber (by omega)
      rcases readDigits?_four text with none | ⟨number, year⟩
      · simp [Timestamp.readDate?, none]
      · simp [Timestamp.readDate?, year, noDash]
    rw [noDate]
    rfl

def startsNumber : Text → Bool
  | 0x2D :: digit :: _ => isAsciiDigit digit
  | digit :: _ => isAsciiDigit digit
  | [] => false

theorem startsNumber_number {text : Text} (isNumber : IsNumber text) :
    startsNumber text = true := by
  obtain ⟨sign, digit, others, rfl, isSign, isDigit⟩ := isNumber.exists_digit
  have noDash : digit ≠ 0x2D := by
    rintro rfl
    exact absurd isDigit (by decide)
  rcases sign_cases isSign with rfl | rfl
  · cases others <;> simp [startsNumber, noDash, isDigit]
  · exact isDigit

theorem wordMeaning?_number {text : Text} (starts : startsNumber text = true) :
    wordMeaning? text = none := by
  have absent {words : List Text} (others : ∀ word ∈ words, startsNumber word = false) :
      words.contains text = false := by
    rw [← Bool.not_eq_true, List.contains_iff_mem]
    intro member
    rw [others text member] at starts
    contradiction
  simp only [wordMeaning?]
  rw [absent (by decide), absent (by decide), absent (by decide), absent (by decide),
    absent (by decide), absent (by decide)]
  rfl

theorem numberMeaning?_number {text : Text} (isNumber : IsNumber text) {value : Value}
    (read : wholeNumber? text = some value ∨
      wholeNumber? text = none ∧ (Binary.readDouble? text).map Value.double = some value) :
    ∃ look, numberMeaning? none text = some (look, value) := by
  have noGroups : text.filter (fun byte => byte ≠ 0x5F) = text := by
    rw [List.filter_eq_self]
    intro byte member
    have sign := isNumber.isNumberSign byte member
    rw [decide_eq_true_eq]
    rintro rfl
    exact absurd sign (by simp [IsNumberSign, isAsciiDigit])
  simp only [numberMeaning?, timestamp?_number isNumber, noGroups, ite_self]
  rcases read with whole | ⟨none, double⟩
  · rw [whole]
    exact ⟨_, rfl⟩
  · obtain ⟨double, read, rfl⟩ := Option.map_eq_some_iff.mp double
    rw [none, read]
    exact ⟨_, rfl⟩

theorem plainMeaning_number {text : Text} (isNumber : IsNumber text)
    (readable : Binary.readDouble? text ≠ none) :
    NumberAgrees text (plainMeaning none text).2 := by
  have noWord := wordMeaning?_number (startsNumber_number isNumber)
  obtain ⟨value, agrees, read⟩ := exists_agreeing isNumber readable
  obtain ⟨look, meaning⟩ := numberMeaning?_number isNumber read
  obtain ⟨sign, digit, others, rfl, isSign, isDigit⟩ := isNumber.exists_digit
  have noLetter (first : Byte) (starts : first = 0x2D ∨ isAsciiDigit first = true) :
      (utf8 "yYnNtTfFoO~").contains first = false ∧ first ≠ 0x2E := by
    have letters : ∀ letter ∈ utf8 "yYnNtTfFoO~", letter ≠ 0x2D ∧ isAsciiDigit letter = false :=
      forall_mem_of_all (by decide)
    constructor
    · rw [← Bool.not_eq_true, List.contains_iff_mem]
      intro member
      obtain ⟨noDash, noDigit⟩ := letters first member
      simp [noDash, noDigit] at starts
    · rintro rfl
      exact absurd starts (by decide)
  rcases sign_cases isSign with rfl | rfl
  · obtain ⟨noLetter, noPoint⟩ := noLetter digit (Or.inr isDigit)
    simp only [List.nil_append] at noWord meaning agrees ⊢
    simp only [plainMeaning, noLetter, noPoint, isDigit, noWord, meaning]
    simpa using agrees
  · obtain ⟨noLetter, noPoint⟩ := noLetter 0x2D (Or.inl rfl)
    simp only [List.singleton_append] at noWord meaning agrees ⊢
    simp only [plainMeaning, noLetter, noWord, meaning]
    simpa using agrees

end Json

end EntitySchema
