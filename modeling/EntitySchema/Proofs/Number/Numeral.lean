import EntitySchema.Proofs.Number.RoundTrip
import EntitySchema.Proofs.Token.Written

/-!
Numerals: digits with an optional sign and an optional fraction. A double is written as a numeral,
a numeral is one token, and reading it gives the double back.
-/

namespace EntitySchema

open Text

namespace Decimal

theorem readUnsigned?_whole {whole : Text} (isDigits : whole.IsDigits) (negative : Bool) :
    readUnsigned? negative whole = some ⟨negative, digitsValue whole, 0⟩ := by
  obtain ⟨taken, dropped⟩ := takeWhile_digits isDigits (show ∀ byte ∈ ([] : Text).head?, _ by simp)
  rw [List.append_nil] at taken dropped
  simp [readUnsigned?, taken, dropped, isDigits.1, readExponent?]

theorem readUnsigned?_fraction {whole fraction : Text} (wholeDigits : whole.IsDigits)
    (fractionDigits : fraction.IsDigits) (negative : Bool) :
    readUnsigned? negative (whole ++ 0x2E :: fraction) =
      some ⟨negative, digitsValue (whole ++ fraction), -fraction.length⟩ := by
  obtain ⟨taken, dropped⟩ := takeWhile_digits wholeDigits
    (show ∀ byte ∈ (0x2E :: fraction).head?, isAsciiDigit byte = false by simp [isAsciiDigit])
  obtain ⟨fractionTaken, fractionDropped⟩ := takeWhile_digits fractionDigits
    (show ∀ byte ∈ ([] : Text).head?, isAsciiDigit byte = false by simp)
  rw [List.append_nil] at fractionTaken fractionDropped
  simp [readUnsigned?, taken, dropped, fractionTaken, fractionDropped, wholeDigits.1,
    readExponent?]

inductive IsUnsigned : Text → Prop
  | whole {whole : Text} : whole.IsDigits → IsUnsigned whole
  | fraction {whole fraction : Text} : whole.IsDigits → fraction.IsDigits →
      IsUnsigned (whole ++ 0x2E :: fraction)

inductive IsNumeral : Text → Prop
  | positive {text : Text} : IsUnsigned text → IsNumeral text
  | negative {text : Text} : IsUnsigned text → IsNumeral (0x2D :: text)

theorem isAsciiDigit_of_zeros {count : Nat} {byte : Byte}
    (member : byte ∈ List.replicate count 0x30) : isAsciiDigit byte = true := by
  obtain rfl := List.eq_of_mem_replicate member
  rfl

theorem isDigits_padLeft {digits : Text} (isDigits : digits.IsDigits) (width : Nat) :
    (padLeft width digits).IsDigits := by
  refine ⟨by simp [padLeft, isDigits.1], ?_⟩
  intro byte member
  exact (List.mem_append.mp member).elim isAsciiDigit_of_zeros (isDigits.2 byte)

theorem digitsValue_padLeft (width : Nat) (digits : Text) :
    digitsValue (padLeft width digits) = digitsValue digits := by
  rw [padLeft, digitsValue_append, digitsValue_zeros]
  simp

theorem padLeft_starts (digits : Text) (places : Nat) :
    (padLeft (places + 1) digits).length = places + 1 ∧
        (padLeft (places + 1) digits).head? = some 0x30 ∨
      (padLeft (places + 1) digits).head? = digits.head? ∧ places < digits.length := by
  by_cases short : digits.length ≤ places
  · have zeros : places + 1 - digits.length = places - digits.length + 1 := by omega
    left
    rw [padLeft, zeros, List.replicate_succ]
    simp only [List.cons_append, List.length_cons, List.length_append, List.length_replicate,
      List.head?_cons, and_true]
    omega
  · refine Or.inr ⟨?_, by omega⟩
    rw [padLeft, Nat.sub_eq_zero_of_le (by omega)]
    rfl

theorem isDigits_append_zeros {digits : Text} (isDigits : digits.IsDigits) (count : Nat) :
    (digits ++ List.replicate count 0x30).IsDigits := by
  refine ⟨by simp [isDigits.1], ?_⟩
  intro byte member
  exact (List.mem_append.mp member).elim (isDigits.2 byte) isAsciiDigit_of_zeros

theorem renderPositional_of_nonneg (digits : Text) {exponent : Int} (whole : 0 ≤ exponent) :
    renderPositional digits exponent = digits ++ List.replicate exponent.natAbs 0x30 := by
  rw [renderPositional, if_pos whole]

theorem renderPositional_of_neg {digits : Text} (isDigits : digits.IsDigits) {exponent : Int}
    (fraction : exponent < 0) :
    ∃ front back : Text, renderPositional digits exponent = front ++ 0x2E :: back ∧ front.IsDigits ∧
      back.IsDigits ∧ back.length = exponent.natAbs ∧
      digitsValue (front ++ back) = digitsValue digits ∧
      (front = [0x30] ∨ front.head? = digits.head? ∧ exponent.natAbs < digits.length) := by
  have padded := isDigits_padLeft isDigits (exponent.natAbs + 1)
  have long : exponent.natAbs + 1 ≤ (padLeft (exponent.natAbs + 1) digits).length := by
    simp only [padLeft, List.length_append, List.length_replicate]
    omega
  have value := digitsValue_padLeft (exponent.natAbs + 1) digits
  have starts := padLeft_starts digits exponent.natAbs
  rw [renderPositional, if_neg (by omega)]
  dsimp only
  generalize padLeft (exponent.natAbs + 1) digits = whole at padded long value starts
  generalize cut : whole.length - exponent.natAbs = size
  have point : utf8 "." = [0x2E] := rfl
  refine ⟨whole.take size, whole.drop size, by simp [point], ⟨?_, ?_⟩, ⟨?_, ?_⟩, ?_, ?_, ?_⟩
  · rw [Ne, List.take_eq_nil_iff]
    simp only [padded.1, or_false]
    omega
  · exact fun byte member => padded.2 byte (List.mem_of_mem_take member)
  · rw [Ne, List.drop_eq_nil_iff]
    omega
  · exact fun byte member => padded.2 byte (List.mem_of_mem_drop member)
  · rw [List.length_drop]
    omega
  · rw [List.take_append_drop, value]
  · obtain ⟨first, others, rfl⟩ := List.exists_cons_of_ne_nil padded.1
    obtain ⟨size, rfl⟩ := Nat.exists_eq_add_one_of_ne_zero (by omega : size ≠ 0)
    refine starts.imp (fun ⟨length, zero⟩ => ?_) fun same => by rwa [List.take_succ_cons]
    have one : size = 0 := by omega
    rw [one, ← Option.some.inj zero]
    rfl

theorem isUnsigned_renderPositional {digits : Text} (isDigits : digits.IsDigits)
    (exponent : Int) : IsUnsigned (renderPositional digits exponent) := by
  by_cases whole : 0 ≤ exponent
  · rw [renderPositional_of_nonneg digits whole]
    exact .whole (isDigits_append_zeros isDigits _)
  · obtain ⟨front, back, shape, frontDigits, backDigits, _⟩ :=
      renderPositional_of_neg isDigits (by omega : exponent < 0)
    rw [shape]
    exact .fraction frontDigits backDigits

theorem toBinary_shift (format : BinaryFormat) (negative : Bool) (coefficient count : Nat) :
    (⟨negative, coefficient * 10 ^ count, 0⟩ : Decimal).toBinary format =
      (⟨negative, coefficient, count⟩ : Decimal).toBinary format := by
  by_cases empty : coefficient = 0
  · simp [toBinary, empty]
  · have size : (digitCount (coefficient * 10 ^ count) : Int) + 0 =
        digitCount coefficient + count := by
      rw [digitCount_mul_pow (Nat.pos_of_ne_zero empty)]
      omega
    simp [toBinary, empty, scaleRatio, size]

theorem readUnsigned?_renderPositional (decimal : Decimal) :
    ∃ found, readUnsigned? decimal.negative
        (renderPositional (ofNat decimal.coefficient) decimal.exponent) = some found ∧
      ∀ format, found.toBinary format = decimal.toBinary format := by
  obtain ⟨negative, coefficient, exponent⟩ := decimal
  have isDigits := isDigits_ofNat coefficient
  by_cases whole : 0 ≤ exponent
  · obtain ⟨count, rfl⟩ := Int.eq_ofNat_of_zero_le whole
    rw [renderPositional_of_nonneg _ whole]
    refine ⟨_, readUnsigned?_whole (isDigits_append_zeros isDigits _) negative, fun format => ?_⟩
    rw [digitsValue_append, digitsValue_zeros, digitsValue_ofNat, List.length_replicate]
    exact toBinary_shift format negative coefficient count
  · obtain ⟨front, back, shape, frontDigits, backDigits, length, value, _⟩ :=
      renderPositional_of_neg isDigits (by omega : exponent < 0)
    have sameExponent : -(back.length : Int) = exponent := by omega
    refine ⟨_, by rw [shape, readUnsigned?_fraction frontDigits backDigits], fun format => ?_⟩
    rw [value, digitsValue_ofNat, sameExponent]

theorem render_positional (decimal : Decimal) :
    decimal.render .positional = (if decimal.negative then [0x2D] else []) ++
      renderPositional (ofNat decimal.coefficient) decimal.exponent := by
  simp [render, Layout.usesExponent, Layout.positional, show utf8 "-" = [0x2D] from rfl]

theorem IsUnsigned.head {text : Text} (unsigned : IsUnsigned text) :
    ∃ first rest, text = first :: rest ∧ isAsciiDigit first = true := by
  cases unsigned with
  | whole digits =>
      obtain ⟨first, rest, rfl⟩ := List.exists_cons_of_ne_nil digits.1
      exact ⟨first, rest, rfl, digits.2 first (by simp)⟩
  | fraction digits _ =>
      obtain ⟨first, rest, rfl⟩ := List.exists_cons_of_ne_nil digits.1
      exact ⟨first, _, rfl, digits.2 first (by simp)⟩

theorem isNumeral_render (decimal : Decimal) : IsNumeral (decimal.render .positional) := by
  have unsigned := isUnsigned_renderPositional (isDigits_ofNat decimal.coefficient) decimal.exponent
  rw [render_positional]
  cases decimal.negative with
  | true => exact .negative unsigned
  | false => exact .positive unsigned

theorem IsUnsigned.read? {text : Text} (unsigned : IsUnsigned text) :
    read? text = readUnsigned? false text := by
  obtain ⟨first, rest, rfl, digit⟩ := unsigned.head
  unfold Decimal.read?
  split
  next same =>
    obtain ⟨rfl, _⟩ := List.cons.inj same
    simp [isAsciiDigit] at digit
  next same =>
    obtain ⟨rfl, _⟩ := List.cons.inj same
    simp [isAsciiDigit] at digit
  next => rfl

theorem read?_render (decimal : Decimal) :
    ∃ found, read? (decimal.render .positional) = some found ∧
      ∀ format, found.toBinary format = decimal.toBinary format := by
  obtain ⟨found, read, same⟩ := readUnsigned?_renderPositional decimal
  have unsigned := isUnsigned_renderPositional (isDigits_ofNat decimal.coefficient) decimal.exponent
  refine ⟨found, ?_, same⟩
  rw [render_positional]
  cases sign : decimal.negative with
  | true =>
      rw [sign] at read
      exact read
  | false =>
      rw [sign] at read
      exact unsigned.read?.trans read

end Decimal

namespace Binary

def IsDouble : Binary → Prop
  | .finite _ mantissa exponent => BinaryFormat.double.Holds mantissa exponent
  | _ => False

theorem readDouble?_render {value : Binary} (isDouble : value.IsDouble) :
    readDouble? (value.render .double .positional) = some value := by
  cases value with
  | finite negative mantissa exponent =>
      obtain ⟨found, read, same⟩ :=
        Decimal.read?_render (Decimal.shortest .double negative mantissa exponent)
      have value := (same .double).trans (Decimal.shortest_toBinary negative isDouble)
      simp [readDouble?, render, read, value, isFinite]
  | infinite => exact isDouble.elim
  | nan => exact isDouble.elim

theorem isDouble_toBinary {decimal : Decimal}
    (finite : (decimal.toBinary .double).isFinite = true) :
    (decimal.toBinary .double).IsDouble := by
  have zero (negative : Bool) : (zero .double negative).IsDouble := Or.inl ⟨by decide, rfl⟩
  unfold Decimal.toBinary at finite ⊢
  dsimp only at finite ⊢
  split_ifs at finite ⊢ with empty large small
  · exact zero _
  · simp [isFinite] at finite
  · exact zero _
  · generalize found : ofRatio .double decimal.negative
      (scaleRatio 10 decimal.exponent (decimal.coefficient, 1)).1
      (scaleRatio 10 decimal.exponent (decimal.coefficient, 1)).2 = value at finite ⊢
    cases value with
    | finite sign mantissa exponent =>
        exact holds_of_ofRatio BinaryFormat.double_proper
          (scaleRatio_snd_pos _ (by norm_num) (by norm_num)) found
    | infinite => simp [isFinite] at finite
    | nan => simp [isFinite] at finite

theorem isDouble_of_readDouble? {text : Text} {value : Binary}
    (read : readDouble? text = some value) : value.IsDouble := by
  unfold readDouble? at read
  split at read
  · simp at read
  · dsimp only at read
    split at read
    next finite =>
      obtain rfl := Option.some.inj read
      exact isDouble_toBinary finite
    next => simp at read

end Binary

namespace Lexer

open Decimal

def EndsNumber (tail : Text) : Prop :=
  ∀ byte ∈ tail.head?, byte < 0x80 ∧ isAsciiDigit byte = false ∧ byte ≠ 0x2E

theorem digit_ascii {byte : Byte} (digit : isAsciiDigit byte = true) : byte < 0x80 := by
  rw [isAsciiDigit_iff] at digit
  rw [UInt8.lt_iff_toNat_lt]
  exact Nat.lt_of_le_of_lt digit.2 (by decide)

theorem isDigit_ofByte {byte : Byte} (ascii : byte < 0x80) :
    isDigit (Rune.ofByte byte) = isAsciiDigit byte := by
  have code := Rune.ofByte_char_toNat ascii
  rw [Bool.eq_iff_iff, isAsciiDigit_iff, ← code]
  simp only [isDigit, Char.isDigit, Bool.and_eq_true, decide_eq_true_eq, ge_iff_le,
    UInt32.le_iff_toNat_le]
  rfl

theorem lexemes_ascii {first : Byte} {rest tail : Text} {kind : TokenKind}
    (ascii : ∀ byte ∈ first :: rest, byte < 0x80)
    (visible : Lexer.isBlank (Rune.ofByte first) = false)
    (measured : measure (Rune.ofByte first) (runes (rest ++ tail)) = (kind, rest.length)) :
    lexemes (runes (first :: rest ++ tail)) = ⟨kind, first :: rest⟩ :: lexemes (runes tail) := by
  rw [List.forall_mem_cons] at ascii
  rw [List.cons_append, runes_cons_ascii _ ascii.1, lexemes_cons visible measured,
    runes_ascii_append ascii.2, List.take_left' (by simp), List.drop_left' (by simp),
    Rune.spell_cons, Rune.spell_map_ofByte]
  rfl

theorem takeWhile_isDigit {digits tail : Text}
    (all : ∀ byte ∈ digits, isAsciiDigit byte = true)
    (stops : ∀ byte ∈ tail.head?, byte < 0x80 ∧ isAsciiDigit byte = false) :
    (runes (digits ++ tail)).takeWhile isDigit = digits.map Rune.ofByte ∧
      (runes (digits ++ tail)).dropWhile isDigit = runes tail := by
  have allRunes : ∀ rune ∈ digits.map Rune.ofByte, isDigit rune = true := by
    intro rune member
    obtain ⟨byte, inside, rfl⟩ := List.mem_map.mp member
    rw [isDigit_ofByte (digit_ascii (all byte inside)), all byte inside]
  rw [runes_ascii_append fun byte member => digit_ascii (all byte member),
    List.takeWhile_append_of_pos allRunes,
    List.dropWhile_append_of_pos allRunes]
  cases tail with
  | nil => simp
  | cons byte tail =>
      obtain ⟨ascii, notDigit⟩ := stops byte (by simp)
      have stop : isDigit (Rune.ofByte byte) = false := by rw [isDigit_ofByte ascii, notDigit]
      simp [runes_cons_ascii tail ascii, stop]

theorem numberSize_whole {digits tail : Text}
    (all : ∀ byte ∈ digits, isAsciiDigit byte = true) (ends : EndsNumber tail) :
    numberSize (runes (digits ++ tail)) = digits.length := by
  obtain ⟨taken, dropped⟩ := takeWhile_isDigit all fun byte member =>
    ⟨(ends byte member).1, (ends byte member).2.1⟩
  have noFraction : fractionSize (runes tail) = 0 := by
    cases tail with
    | nil => rfl
    | cons byte tail =>
        obtain ⟨ascii, _, notPoint⟩ := ends byte (by simp)
        have other : (Rune.ofByte byte).char ≠ '.' := by
          intro same
          have code := Rune.ofByte_char_toNat ascii
          rw [same] at code
          exact notPoint (UInt8.toNat_inj.mp code.symm)
        simp [runes_cons_ascii tail ascii, fractionSize, other]
  rw [numberSize, taken, dropped, noFraction, List.length_map, Nat.add_zero]

theorem numberSize_fraction {digits fraction tail : Text}
    (all : ∀ byte ∈ digits, isAsciiDigit byte = true) (fractionDigits : fraction.IsDigits)
    (ends : EndsNumber tail) :
    numberSize (runes (digits ++ 0x2E :: (fraction ++ tail))) =
      digits.length + (fraction.length + 1) := by
  have stops : ∀ byte ∈ (0x2E :: (fraction ++ tail) : Text).head?,
      byte < 0x80 ∧ isAsciiDigit byte = false := by
    simp
    decide
  obtain ⟨taken, dropped⟩ := takeWhile_isDigit all stops
  obtain ⟨fractionTaken, _⟩ := takeWhile_isDigit fractionDigits.2 fun byte member =>
    ⟨(ends byte member).1, (ends byte member).2.1⟩
  have nextDigit : nextIs isDigit (runes (fraction ++ tail)) = true := by
    obtain ⟨first, rest, rfl⟩ := List.exists_cons_of_ne_nil fractionDigits.1
    have digit := fractionDigits.2 first (by simp)
    rw [List.cons_append, runes_cons_ascii _ (digit_ascii digit)]
    exact (isDigit_ofByte (digit_ascii digit)).trans digit
  have point : (Rune.ofByte 0x2E).char = '.' := by decide
  rw [numberSize, taken, dropped, runes_cons_ascii _ (by decide)]
  simp [fractionSize, point, nextDigit, fractionTaken]

theorem isBlank_of_isDigit {rune : Rune} (digit : isDigit rune = true) :
    Lexer.isBlank rune = false := by
  simp only [Lexer.isBlank, Bool.or_eq_false_iff, decide_eq_false_iff_not]
  refine ⟨⟨⟨?_, ?_⟩, ?_⟩, ?_⟩ <;> intro same <;> simp [isDigit, same] at digit

theorem unsigned_ascii {text : Text} (unsigned : IsUnsigned text) : ∀ byte ∈ text, byte < 0x80 := by
  intro byte member
  cases unsigned with
  | whole digits => exact digit_ascii (digits.2 byte member)
  | fraction wholeDigits fractionDigits =>
      rcases List.mem_append.mp member with inside | inside
      · exact digit_ascii (wholeDigits.2 byte inside)
      · rcases List.mem_cons.mp inside with rfl | inside
        · decide
        · exact digit_ascii (fractionDigits.2 byte inside)

theorem numberSize_unsigned {text tail : Text} (unsigned : IsUnsigned text)
    (ends : EndsNumber tail) :
    numberSize (runes (text ++ tail)) = text.length ∧
      numberSize (runes (text.tail ++ tail)) = text.tail.length := by
  cases unsigned with
  | whole digits =>
      exact ⟨numberSize_whole digits.2 ends,
        numberSize_whole (fun byte member => digits.2 byte (List.mem_of_mem_tail member)) ends⟩
  | @fraction whole fraction wholeDigits fractionDigits =>
      have behind : (whole ++ 0x2E :: fraction).tail = whole.tail ++ 0x2E :: fraction :=
        List.tail_append_of_ne_nil wholeDigits.1
      have shorter : ∀ byte ∈ whole.tail, isAsciiDigit byte = true :=
        fun byte member => wholeDigits.2 byte (List.mem_of_mem_tail member)
      rw [behind, List.append_assoc, List.append_assoc, List.cons_append]
      exact ⟨by simp [numberSize_fraction wholeDigits.2 fractionDigits ends],
        by simp [numberSize_fraction shorter fractionDigits ends]⟩

theorem lexemes_numeral {text tail : Text} (numeral : IsNumeral text) (ends : EndsNumber tail) :
    lexemes (runes (text ++ tail)) = ⟨.number, text⟩ :: lexemes (runes tail) := by
  cases numeral with
  | positive unsigned =>
      obtain ⟨size, tailSize⟩ := numberSize_unsigned unsigned ends
      have ascii := unsigned_ascii unsigned
      obtain ⟨first, rest, rfl, digit⟩ := unsigned.head
      have isDigit := (isDigit_ofByte (digit_ascii digit)).trans digit
      refine lexemes_ascii ascii (isBlank_of_isDigit isDigit) ?_
      rw [measure_of_digit (Or.inl isDigit)]
      exact congrArg (Prod.mk _) tailSize
  | @negative text unsigned =>
      obtain ⟨size, _⟩ := numberSize_unsigned unsigned ends
      have ascii := unsigned_ascii unsigned
      refine lexemes_ascii (List.forall_mem_cons.mpr ⟨by decide, ascii⟩) (by decide) ?_
      have nextDigit : nextIs isDigit (runes (text ++ tail)) = true := by
        obtain ⟨first, rest, rfl, digit⟩ := unsigned.head
        rw [List.cons_append, runes_cons_ascii _ (digit_ascii digit)]
        exact (isDigit_ofByte (digit_ascii digit)).trans digit
      rw [measure_of_digit (Or.inr ⟨by decide, nextDigit⟩), size]

end Lexer

end EntitySchema
