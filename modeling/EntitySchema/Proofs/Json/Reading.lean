import EntitySchema.Proofs.Json.Written
import Mathlib.Data.List.TakeWhile

/-!
What is read as JSON is written by the grammar. The reader goes over bytes, the grammar is about
characters, so each reader is shown to stop where a character ends.
-/

namespace EntitySchema

namespace Json

open Text

theorem ofChars_eq_append {text rest : Text} (ascii : ∀ byte ∈ text, byte < 0x80)
    {chars : List Char} (spelled : ofChars chars = text ++ rest) :
    ∃ others, chars = asciiChars text ++ others ∧ rest = ofChars others := by
  induction text generalizing chars with
  | nil => exact ⟨chars, rfl, spelled.symm⟩
  | cons byte text ih =>
      rw [List.forall_mem_cons] at ascii
      obtain ⟨others, rfl, behind⟩ := ofChars_eq_cons ascii.1 spelled
      obtain ⟨others, rfl, rest⟩ := ih ascii.2 behind.symm
      exact ⟨others, rfl, rest⟩

theorem exists_blank {byte : Byte} (blank : isBlank byte = true) :
    byte < 0x80 ∧ ∃ sign : Blank, sign.char = Char.ofNat byte.toNat := by
  simp only [isBlank, Bool.or_eq_true, decide_eq_true_eq] at blank
  rcases blank with ((rfl | rfl) | rfl) | rfl
  · exact ⟨by decide, .space, rfl⟩
  · exact ⟨by decide, .tab, rfl⟩
  · exact ⟨by decide, .lineFeed, rfl⟩
  · exact ⟨by decide, .carriageReturn, rfl⟩

theorem skipBlanks_ofChars (chars : List Char) :
    ∃ signs others, chars = blanks signs ++ others ∧
      skipBlanks (ofChars chars) = ofChars others := by
  induction chars with
  | nil => exact ⟨[], [], rfl, rfl⟩
  | cons char chars ih =>
      obtain ⟨first, tail, spelled, _⟩ := Rune.leading_encode char []
      have shape : ofChars (char :: chars) = first :: (tail ++ ofChars chars) := by
        rw [ofChars_cons, spelled, List.cons_append]
      by_cases blank : isBlank first = true
      · obtain ⟨ascii, sign, same⟩ := exists_blank blank
        obtain ⟨others, split, behind⟩ := ofChars_eq_cons ascii shape
        obtain ⟨rfl, rfl⟩ := List.cons.inj split
        obtain ⟨signs, others, rfl, skipped⟩ := ih
        refine ⟨sign :: signs, others, by rw [← same]; rfl, ?_⟩
        rw [shape, behind, skipBlanks, List.dropWhile_cons_of_pos blank]
        exact skipped
      · refine ⟨[], char :: chars, rfl, ?_⟩
        rw [shape, skipBlanks, List.dropWhile_cons_of_neg blank]

theorem hexValue?_ascii {byte : Byte} {value : Nat} (isHex : hexValue? byte = some value) :
    byte < 0x80 := by
  simp only [hexValue?, Bool.and_eq_true, decide_eq_true_eq] at isHex
  rw [UInt8.lt_iff_toNat_lt]
  simp only [UInt8.le_iff_toNat_le] at isHex
  split_ifs at isHex with digit small capital
  · exact Nat.lt_of_le_of_lt digit.2 (by decide)
  · exact Nat.lt_of_le_of_lt small.2 (by decide)
  · exact Nat.lt_of_le_of_lt capital.2 (by decide)

def HexDigit.ofByte {byte : Byte} {value : Nat} (isHex : hexValue? byte = some value) :
    HexDigit where
  char := Char.ofNat byte.toNat
  value := value
  isHex := by
    have ascii := hexValue?_ascii isHex
    have code := Rune.ofByte_char_toNat ascii
    rw [Rune.ofByte] at code
    rw [code]
    exact ⟨UInt8.lt_iff_toNat_lt.mp ascii, by simpa using isHex⟩

theorem HexDigit.encode (digit : HexDigit) :
    String.utf8EncodeChar digit.char = [digit.char.toNat.toUInt8] := by
  obtain ⟨_, spelled⟩ | ⟨high, _⟩ := Rune.encode_cases digit.char
  · exact spelled
  · exact absurd digit.isHex.1 (Nat.not_lt.mpr high)

theorem readHex4?_chars (unit : CodeUnit) (others : List Char) :
    readHex4? (ofChars (unit.chars ++ others)) = some (unit.code, ofChars others) := by
  simp [CodeUnit.chars, ofChars_cons, HexDigit.encode, readHex4?, unit.first.isHex.2,
    unit.second.isHex.2, unit.third.isHex.2, unit.fourth.isHex.2, CodeUnit.code]

theorem exists_unit {chars : List Char} {code : Nat} {rest : Text}
    (read : readHex4? (ofChars chars) = some (code, rest)) :
    ∃ unit others, chars = CodeUnit.chars unit ++ others ∧ rest = ofChars others ∧
      unit.code = code := by
  unfold readHex4? at read
  split at read
  next first second third fourth others spelled =>
    simp only [Option.bind_eq_bind, Option.bind_eq_some_iff, Option.some.injEq,
      Prod.mk.injEq] at read
    obtain ⟨a, isFirst, b, isSecond, c, isThird, d, isFourth, rfl, rfl⟩ := read
    have ascii : ∀ byte ∈ [first, second, third, fourth], byte < 0x80 := by
      simp [hexValue?_ascii isFirst, hexValue?_ascii isSecond, hexValue?_ascii isThird,
        hexValue?_ascii isFourth]
    obtain ⟨others, rfl, rest⟩ := ofChars_eq_append ascii spelled
    exact ⟨⟨.ofByte isFirst, .ofByte isSecond, .ofByte isThird, .ofByte isFourth⟩, others, rfl,
      rest, rfl⟩
  next => simp at read

theorem exists_lowSurrogate {chars : List Char} {code : Nat} {rest : Text}
    (read : readLowSurrogate? (ofChars chars) = some (code, rest)) :
    ∃ unit others, chars = '\\' :: 'u' :: CodeUnit.chars unit ++ others ∧ rest = ofChars others ∧
      unit.code = code ∧ isLowSurrogate code = true := by
  unfold readLowSurrogate? at read
  split at read
  next others spelled =>
    have ascii : ∀ byte ∈ ([0x5C, 0x75] : Text), byte < 0x80 := forall_mem_of_all (by decide)
    obtain ⟨others, rfl, behind⟩ := ofChars_eq_append ascii spelled
    rw [behind] at read
    split at read
    next code rest hex =>
      obtain ⟨unit, others, rfl, rfl, rfl⟩ := exists_unit hex
      split at read
      next low =>
        obtain ⟨rfl, rfl⟩ := Prod.mk.inj (Option.some.inj read)
        exact ⟨unit, others, rfl, rfl, rfl, low⟩
      next => simp at read
    next => simp at read
  next => simp at read

theorem readLowSurrogate?_chars {unit : CodeUnit} (low : isLowSurrogate unit.code = true)
    (others : List Char) :
    readLowSurrogate? (ofChars ('\\' :: 'u' :: unit.chars ++ others)) =
      some (unit.code, ofChars others) := by
  have shape : ofChars ('\\' :: 'u' :: unit.chars ++ others) =
      0x5C :: 0x75 :: ofChars (unit.chars ++ others) := rfl
  rw [shape, readLowSurrogate?, readHex4?_chars]
  exact if_pos low

theorem exists_escape {byte char : Byte} (simple : simpleEscape? byte = some char) :
    byte < 0x80 ∧ ∃ escaped : Escape, escaped.mark = Char.ofNat byte.toNat ∧
      ofChars [escaped.char] = [char] := by
  unfold simpleEscape? at simple
  split at simple <;> simp only [Option.some.injEq, reduceCtorEq] at simple <;> subst simple
  · exact ⟨by decide, .quote, rfl, rfl⟩
  · exact ⟨by decide, .backslash, rfl, rfl⟩
  · exact ⟨by decide, .slash, rfl, rfl⟩
  · exact ⟨by decide, .backspace, rfl, rfl⟩
  · exact ⟨by decide, .formFeed, rfl, rfl⟩
  · exact ⟨by decide, .lineFeed, rfl, rfl⟩
  · exact ⟨by decide, .carriageReturn, rfl, rfl⟩
  · exact ⟨by decide, .tab, rfl, rfl⟩

theorem readString?_raw {byte : Byte} (notQuote : byte ≠ 0x22) (notEscape : byte ≠ 0x5C)
    (fuel : Nat) (done rest : Text) :
    readString? (fuel + 1) done (byte :: rest) =
      if byte < 0x20 then none else readString? fuel (byte :: done) rest := by
  rw [readString?.eq_6 _ _ _ _ notQuote (fun _ same => absurd same notEscape)
    (fun _ _ same => absurd same notEscape)]
  simp [notEscape]

theorem readString?_high {bytes : Text} (high : ∀ byte ∈ bytes, 0x80 ≤ byte) {fuel : Nat}
    {done rest : Text} {result : Text × Text}
    (read : readString? fuel done (bytes ++ rest) = some result) :
    ∃ fuel, readString? fuel (bytes.reverse ++ done) rest = some result := by
  induction bytes generalizing fuel done with
  | nil => exact ⟨fuel, read⟩
  | cons byte bytes ih =>
      rw [List.forall_mem_cons] at high
      have large := UInt8.le_iff_toNat_le.mp high.1
      cases fuel with
      | zero => simp [readString?] at read
      | succ fuel =>
          have notQuote : byte ≠ 0x22 := by rintro rfl; simp at large
          have notEscape : byte ≠ 0x5C := by rintro rfl; simp at large
          have notControl : ¬byte < 0x20 := UInt8.not_lt.mpr (UInt8.le_trans (by decide) high.1)
          rw [List.cons_append, readString?_raw notQuote notEscape, if_neg notControl] at read
          simpa using ih high.2 read

theorem textOf_unit {unit : CodeUnit} {signs : List Sign} (others : List Char)
    (alone : isHighSurrogate unit.code = true →
      readLowSurrogate? (ofChars (signs.flatMap Sign.chars ++ others)) = none) :
    Sign.textOf (.unit unit :: signs) = encodeCode unit.code ++ Sign.textOf signs := by
  cases signs with
  | nil => rw [Sign.textOf.eq_5 _ _ (by simp)]
  | cons sign signs =>
      cases sign with
      | raw => rw [Sign.textOf.eq_5 _ _ (by simp)]
      | escape => rw [Sign.textOf.eq_5 _ _ (by simp)]
      | unit low =>
          rw [Sign.textOf.eq_4]
          split
          next pair =>
            obtain ⟨isHigh, isLow⟩ := Bool.and_eq_true_iff.mp pair
            have found := readLowSurrogate?_chars isLow (signs.flatMap Sign.chars ++ others)
            have missing := alone isHigh
            rw [List.flatMap_cons, List.append_assoc] at missing
            exact absurd (found.symm.trans missing) (by simp)
          next => rfl

theorem isRaw_of_encode {char : Char} {first : Byte} {tail : Text}
    (spelled : String.utf8EncodeChar char = first :: tail) (notQuote : first ≠ 0x22)
    (allowed : ¬(decide (first < 0x20) || decide (first = 0x5C)) = true) :
    IsRaw char ∧ ∀ byte ∈ tail, 0x80 ≤ byte := by
  simp only [Bool.or_eq_true, decide_eq_true_eq, not_or, UInt8.not_lt] at allowed
  obtain ⟨ascii, same⟩ | ⟨high, bytes⟩ := Rune.encode_cases char
  · obtain ⟨rfl, rfl⟩ := List.cons.inj (spelled.symm.trans same)
    have code : char.toNat.toUInt8.toNat = char.toNat :=
      UInt8.toNat_ofNat_of_lt' (Nat.lt_trans ascii (by decide))
    refine ⟨⟨?_, ?_, ?_⟩, by simp⟩
    · rw [← code]
      exact UInt8.le_iff_toNat_le.mp allowed.1
    · rintro rfl
      exact notQuote rfl
    · rintro rfl
      exact allowed.2 rfl
  · refine ⟨⟨Nat.le_trans (by decide) high, ?_, ?_⟩, ?_⟩
    · rintro rfl
      simp at high
    · rintro rfl
      simp at high
    · intro byte member
      exact bytes byte (spelled ▸ List.mem_cons_of_mem _ member)

/--
A round of the reader of a string takes some signs, and goes on with their text behind what was
read before, whatever signs come next.
-/
def TakesSigns (chars : List Char) (done : Text) (result : Text × Text) : Prop :=
  ∃ front others fuel, chars = front.flatMap Sign.chars ++ others ∧
    others.length < chars.length ∧
    readString? fuel ((Sign.textOf front).reverse ++ done) (ofChars others) = some result ∧
    ∀ signs behind, others = signs.flatMap Sign.chars ++ '"' :: behind →
      Sign.textOf (front ++ signs) = Sign.textOf front ++ Sign.textOf signs

section Round

variable {fuel : Nat} {done : Text} {others : List Char} {result : Text × Text}

theorem takesSigns_pair {high low : CodeUnit} (isHigh : isHighSurrogate high.code = true)
    (isLow : isLowSurrogate low.code = true)
    (read : readString? fuel ((encodeCode (0x10000 + (high.code - 0xD800) * 0x400 +
      (low.code - 0xDC00))).reverse ++ done) (ofChars others) = some result) :
    TakesSigns (asciiChars [0x5C, 0x75] ++ (high.chars ++ ('\\' :: 'u' :: low.chars ++ others)))
      done result := by
  have pair : (isHighSurrogate high.code && isLowSurrogate low.code) = true := by
    rw [isHigh, isLow, Bool.and_self]
  refine ⟨[.unit high, .unit low], others, fuel, ?_, ?_, ?_, ?_⟩
  · simp [Sign.chars, asciiChars]
  · simp only [List.length_append, List.length_cons]
    omega
  · simpa [Sign.textOf, pair] using read
  · simp [Sign.textOf, pair]

theorem takesSigns_unit {unit : CodeUnit}
    (alone : isHighSurrogate unit.code = true → readLowSurrogate? (ofChars others) = none)
    (read : readString? fuel ((encodeCode unit.code).reverse ++ done) (ofChars others) =
      some result) :
    TakesSigns (asciiChars [0x5C, 0x75] ++ (unit.chars ++ others)) done result := by
  refine ⟨[.unit unit], others, fuel, ?_, ?_, ?_, ?_⟩
  · simp [Sign.chars, asciiChars]
  · simp only [asciiChars, List.length_append, List.length_map, List.length_cons]
    omega
  · simpa [Sign.textOf] using read
  · rintro signs behind rfl
    simpa [Sign.textOf] using textOf_unit ('"' :: behind) alone

theorem takesSigns_escape {byte char : Byte} (simple : simpleEscape? byte = some char)
    (read : readString? fuel (char :: done) (ofChars others) = some result) :
    TakesSigns (asciiChars [0x5C, byte] ++ others) done result := by
  obtain ⟨_, escaped, mark, same⟩ := exists_escape simple
  refine ⟨[.escape escaped], others, fuel, ?_, ?_, ?_, ?_⟩
  · simp [Sign.chars, asciiChars, mark]
  · simp only [asciiChars, List.length_append, List.length_map, List.length_cons]
    omega
  · simpa [Sign.textOf, same] using read
  · simp [Sign.textOf]

theorem takesSigns_raw {byte : Byte} {rest : Text} {chars : List Char}
    (spelled : ofChars chars = byte :: rest) (notQuote : byte ≠ 0x22)
    (allowed : ¬(decide (byte < 0x20) || decide (byte = 0x5C)) = true)
    (read : readString? fuel (byte :: done) rest = some result) :
    TakesSigns chars done result := by
  cases chars with
  | nil => simp at spelled
  | cons char chars =>
      rw [ofChars_cons] at spelled
      obtain ⟨first, tail, shape, _⟩ := Rune.leading_encode char []
      rw [shape, List.cons_append, List.cons.injEq] at spelled
      obtain ⟨rfl, rfl⟩ := spelled
      have bytes : ofChars [char] = first :: tail := by simp [ofChars_cons, shape]
      obtain ⟨isRaw, high⟩ := isRaw_of_encode shape notQuote allowed
      obtain ⟨fuel, read⟩ := readString?_high high read
      refine ⟨[.raw char isRaw], chars, fuel, rfl, by simp, ?_, ?_⟩
      · simpa [Sign.textOf, bytes] using read
      · simp [Sign.textOf]

theorem exists_round {chars : List Char}
    (read : readString? fuel done (ofChars chars) = some result) :
    (∃ others, chars = '"' :: others ∧ result = (done.reverse, ofChars others)) ∨
      TakesSigns chars done result := by
  unfold readString? at read
  split at read
  next => simp at read
  next => simp at read
  next done _ spelled =>
    obtain ⟨others, rfl, rfl⟩ := ofChars_eq_cons (by decide) spelled
    exact Or.inl ⟨others, rfl, (Option.some.inj read).symm⟩
  next fuel rest spelled =>
    have ascii : ∀ byte ∈ ([0x5C, 0x75] : Text), byte < 0x80 := forall_mem_of_all (by decide)
    obtain ⟨others, rfl, rfl⟩ := ofChars_eq_append ascii spelled
    split at read
    next => simp at read
    next code rest hex =>
      obtain ⟨unit, others, rfl, rfl, rfl⟩ := exists_unit hex
      split at read
      next low rest isHigh isLow =>
        obtain ⟨partner, others, rfl, rfl, rfl, lowCode⟩ := exists_lowSurrogate isLow
        exact Or.inr (takesSigns_pair isHigh lowCode read)
      next alone =>
        refine Or.inr (takesSigns_unit (fun isHigh => ?_) read)
        cases found : readLowSurrogate? (ofChars others) with
        | none => rfl
        | some pair => exact (alone pair.1 pair.2 isHigh found).elim
  next fuel byte rest notUnit spelled =>
    split at read
    next => simp at read
    next char simple =>
      have bothAscii : ∀ byte' ∈ ([0x5C, byte] : Text), byte' < 0x80 := by
        simp [(exists_escape simple).1]
      obtain ⟨others, rfl, rfl⟩ := ofChars_eq_append bothAscii spelled
      exact Or.inr (takesSigns_escape simple read)
  next done _ _ _ fuel byte rest notQuote _ notEscape spelled =>
    split at read
    next => simp at read
    next allowed => exact Or.inr (takesSigns_raw spelled notQuote allowed read)

end Round

theorem exists_signs {fuel : Nat} {done : Text} {chars : List Char} {text rest : Text}
    (read : readString? fuel done (ofChars chars) = some (text, rest)) :
    ∃ signs others, chars = signs.flatMap Sign.chars ++ '"' :: others ∧ rest = ofChars others ∧
      text = done.reverse ++ Sign.textOf signs := by
  -- on the characters, since those beyond ASCII take several steps of the reader
  induction size : chars.length using Nat.strongRecOn generalizing fuel done chars with
  | ind size ih =>
      subst size
      obtain ⟨others, rfl, same⟩ | ⟨front, others, fuel, rfl, shorter, behind, joined⟩ :=
        exists_round read
      · obtain ⟨rfl, rfl⟩ := Prod.mk.inj same
        exact ⟨[], others, rfl, rfl, by simp [Sign.textOf]⟩
      · obtain ⟨signs, others, rfl, rfl, rfl⟩ := ih _ shorter behind rfl
        refine ⟨front ++ signs, others, by simp, rfl, ?_⟩
        rw [joined signs others rfl]
        simp

theorem isDigits_of_readDigits? {text digits rest : Text}
    (read : readDigits? text = some (digits, rest)) : text = digits ++ rest ∧ digits.IsDigits := by
  unfold readDigits? at read
  dsimp only at read
  split at read
  next => simp at read
  next nonempty =>
    obtain ⟨rfl, rfl⟩ := Prod.mk.inj (Option.some.inj read)
    rw [Bool.not_eq_true, List.isEmpty_eq_false_iff] at nonempty
    exact ⟨List.takeWhile_append_dropWhile.symm, nonempty,
      fun byte member => List.mem_takeWhile_imp member⟩

theorem isWhole_of_readWhole? {text whole rest : Text}
    (read : readWhole? text = some (whole, rest)) : text = whole ++ rest ∧ IsWhole whole := by
  unfold readWhole? at read
  split at read
  next =>
    obtain ⟨rfl, rfl⟩ := Prod.mk.inj (Option.some.inj read)
    exact ⟨rfl, .zero⟩
  next noZero =>
    obtain ⟨rfl, digits⟩ := isDigits_of_readDigits? read
    refine ⟨rfl, .digits digits fun zero => ?_⟩
    obtain ⟨others, rfl⟩ := List.head?_eq_some_iff.mp zero
    exact noZero _ rfl

theorem isFraction_of_readFraction? {text fraction rest : Text}
    (read : readFraction? text = some (fraction, rest)) :
    text = fraction ++ rest ∧ IsFraction fraction := by
  unfold readFraction? at read
  split at read
  next =>
    obtain ⟨⟨digits, others⟩, found, same⟩ := Option.map_eq_some_iff.mp read
    obtain ⟨rfl, rfl⟩ := Prod.mk.inj same
    obtain ⟨rfl, digits⟩ := isDigits_of_readDigits? found
    exact ⟨rfl, .digits digits⟩
  next =>
    obtain ⟨rfl, rfl⟩ := Prod.mk.inj (Option.some.inj read)
    exact ⟨rfl, .none⟩

theorem isExponent_of_readExponent? {text exponent rest : Text}
    (read : readExponent? text = some (exponent, rest)) :
    text = exponent ++ rest ∧ IsExponent exponent := by
  unfold readExponent? at read
  split at read
  next mark others =>
    split at read
    next marked =>
      have isMark : mark ∈ [0x65, 0x45] := by simpa using marked
      split at read
      next sign rest signed =>
        have splits : others = sign ++ rest ∧ sign ∈ ([[], [0x2B], [0x2D]] : List Text) := by
          split at signed <;> obtain ⟨rfl, rfl⟩ := Prod.mk.inj signed <;> simp
        obtain ⟨⟨digits, behind⟩, found, same⟩ := Option.map_eq_some_iff.mp read
        obtain ⟨rfl, rfl⟩ := Prod.mk.inj same
        obtain ⟨rfl, isDigits⟩ := isDigits_of_readDigits? found
        exact ⟨by simp [splits.1], .digits isMark splits.2 isDigits⟩
    next =>
      obtain ⟨rfl, rfl⟩ := Prod.mk.inj (Option.some.inj read)
      exact ⟨rfl, .none⟩
  next =>
    obtain ⟨rfl, rfl⟩ := Prod.mk.inj (Option.some.inj read)
    exact ⟨rfl, .none⟩

theorem isNumber_of_readNumber? {text digits rest : Text}
    (read : readNumber? text = some (digits, rest)) : text = digits ++ rest ∧ IsNumber digits := by
  unfold readNumber? at read
  split at read
  next sign behind signed =>
    have splits : text = sign ++ behind ∧ sign ∈ ([[], [0x2D]] : List Text) := by
      split at signed <;> obtain ⟨rfl, rfl⟩ := Prod.mk.inj signed <;> simp
    simp only [Option.bind_eq_bind, Option.bind_eq_some_iff] at read
    obtain ⟨⟨whole, behind⟩, wholeRead, ⟨fraction, behind⟩, fractionRead,
      ⟨exponent, behind⟩, exponentRead, same⟩ := read
    obtain ⟨rfl, rfl⟩ := Prod.mk.inj (Option.some.inj same)
    obtain ⟨rfl, isWhole⟩ := isWhole_of_readWhole? wholeRead
    obtain ⟨rfl, isFraction⟩ := isFraction_of_readFraction? fractionRead
    obtain ⟨rfl, isExponent⟩ := isExponent_of_readExponent? exponentRead
    exact ⟨by simp [splits.1], .parts splits.2 isWhole isFraction isExponent⟩

theorem dropPrefix?_eq_some {start text rest : Text}
    (dropped : dropPrefix? start text = some rest) : text = start ++ rest := by
  induction start generalizing text with
  | nil => simpa [dropPrefix?] using dropped
  | cons byte start ih =>
      cases text with
      | nil => simp [dropPrefix?] at dropped
      | cons first text =>
          rw [dropPrefix?] at dropped
          split at dropped
          next same => rw [same, ih dropped, List.cons_append]
          next => simp at dropped

def IsNumberSign (byte : Byte) : Prop :=
  isAsciiDigit byte = true ∨ byte ∈ ([0x2B, 0x2D, 0x2E, 0x45, 0x65] : Text)

instance : DecidablePred IsNumberSign := fun _ => inferInstanceAs (Decidable (_ ∨ _))

theorem IsNumberSign.ascii {byte : Byte} (sign : IsNumberSign byte) : byte < 0x80 := by
  rcases sign with digit | sign
  · have range := (isAsciiDigit_iff byte).mp digit
    rw [UInt8.lt_iff_toNat_lt]
    exact Nat.lt_of_le_of_lt range.2 (by decide)
  · have all : ∀ byte ∈ ([0x2B, 0x2D, 0x2E, 0x45, 0x65] : Text), byte < 0x80 :=
      forall_mem_of_all (by decide)
    exact all byte sign

theorem sign_cases {sign : Text} (isSign : sign ∈ ([[], [0x2D]] : List Text)) :
    sign = [] ∨ sign = [0x2D] := by
  simpa using isSign

theorem IsNumber.isNumberSign {text : Text} (isNumber : IsNumber text) :
    ∀ byte ∈ text, IsNumberSign byte := by
  have digits {digits : Text} (isDigits : digits.IsDigits) : ∀ byte ∈ digits, IsNumberSign byte :=
    fun byte member => Or.inl (isDigits.2 byte member)
  have marks : ∀ mark ∈ ([0x65, 0x45] : Text), IsNumberSign mark := forall_mem_of_all (by decide)
  have signs : ∀ sign ∈ ([[], [0x2B], [0x2D]] : List Text), ∀ byte ∈ sign, IsNumberSign byte := by
    simp [IsNumberSign]
  obtain ⟨isSign, isWhole, isFraction, isExponent⟩ := isNumber
  simp only [List.forall_mem_append]
  refine ⟨⟨⟨?sign, ?whole⟩, ?fraction⟩, ?exponent⟩
  case sign =>
    rcases sign_cases isSign with rfl | rfl <;> simp [IsNumberSign]
  case whole =>
    cases isWhole with
    | zero => simp [IsNumberSign, isAsciiDigit]
    | digits isDigits => exact digits isDigits
  case fraction =>
    cases isFraction with
    | none => simp
    | digits isDigits =>
        exact List.forall_mem_cons.mpr ⟨Or.inr (by decide), digits isDigits⟩
  case exponent =>
    cases isExponent with
    | none => simp
    | digits isMark isSign isDigits =>
        simp only [List.forall_mem_append, List.forall_mem_cons]
        exact ⟨⟨marks _ isMark, signs _ isSign⟩, digits isDigits⟩

theorem IsNumber.ascii {text : Text} (isNumber : IsNumber text) : ∀ byte ∈ text, byte < 0x80 :=
  fun byte member => (isNumber.isNumberSign byte member).ascii

theorem IsWhole.isDigits {whole : Text} (isWhole : IsWhole whole) : whole.IsDigits := by
  cases isWhole with
  | zero => exact ⟨by simp, forall_mem_of_all (by decide)⟩
  | digits isDigits => exact isDigits

theorem IsNumber.exists_digit {text : Text} (isNumber : IsNumber text) :
    ∃ sign digit others, text = sign ++ digit :: others ∧ sign ∈ ([[], [0x2D]] : List Text) ∧
      isAsciiDigit digit = true := by
  obtain @⟨sign, whole, fraction, exponent, isSign, isWhole, isFraction, isExponent⟩ := isNumber
  have isDigits := isWhole.isDigits
  obtain ⟨digit, others, rfl⟩ := List.exists_cons_of_ne_nil isDigits.1
  exact ⟨sign, digit, others ++ fraction ++ exponent, by simp, isSign,
    isDigits.2 digit (by simp)⟩

theorem exists_word {word : Text} {rest : Text} {chars : List Char}
    (ascii : ∀ byte ∈ word, byte < 0x80) (dropped : dropPrefix? word (ofChars chars) = some rest) :
    ∃ others, chars = asciiChars word ++ others ∧ rest = ofChars others :=
  ofChars_eq_append ascii (dropPrefix?_eq_some dropped)

def ValueWritten (fuel : Nat) : Prop :=
  ∀ depth chars value rest, readValue? fuel depth (ofChars chars) = some (value, rest) →
    ∃ front written others, chars = blanks front ++ Written.chars written ++ others ∧
      rest = ofChars others ∧ written.value = value ∧ value.depth ≤ depth

def ItemsWritten (fuel : Nat) : Prop :=
  ∀ depth done front chars items rest,
    readItems? fuel depth done (ofChars chars) = some (items, rest) →
    ∃ written others, blanks front ++ chars = Items.chars written ++ ']' :: others ∧
      rest = ofChars others ∧ items = done.reverse ++ written.values ∧
        itemsDepth written.values ≤ depth

def MembersWritten (fuel : Nat) : Prop :=
  ∀ depth done front chars members rest,
    readMembers? fuel depth done (ofChars chars) = some (members, rest) →
    ∃ written others, blanks front ++ chars = Members.chars written ++ Char.ofNat 0x7D :: others ∧
      rest = ofChars others ∧ members = done.reverse ++ written.pairs ∧
        membersDepth written.pairs ≤ depth

theorem blanks_append (left right : List Blank) :
    blanks (left ++ right) = blanks left ++ blanks right :=
  List.map_append

theorem items_written {fuel : Nat} (value : ValueWritten fuel) (items : ItemsWritten fuel) :
    ItemsWritten (fuel + 1) := by
  intro depth done front chars found rest read
  rw [readItems?] at read
  split at read
  next => simp at read
  next item behind itemRead =>
    obtain ⟨before, written, others, rfl, rfl, rfl, shallow⟩ := value _ _ _ _ itemRead
    obtain ⟨after, others, rfl, skipped⟩ := skipBlanks_ofChars others
    rw [skipped] at read
    split at read
    next spelled =>
      obtain ⟨others, rfl, rfl⟩ := ofChars_eq_cons (by decide) spelled
      obtain ⟨further, others, split, rfl, rfl, deep⟩ := items depth _ [] _ _ _ read
      refine ⟨.cons (front ++ before) written after further, others, ?_, rfl, ?_, ?_⟩
      · rw [blanks, List.map_nil, List.nil_append] at split
        simp [Items.chars, blanks_append, split]
      · simp [Items.values]
      · simp [Items.values, itemsDepth, shallow, deep]
    next spelled =>
      obtain ⟨others, rfl, rfl⟩ := ofChars_eq_cons (by decide) spelled
      obtain ⟨rfl, rfl⟩ := Prod.mk.inj (Option.some.inj read)
      refine ⟨.last (front ++ before) written after, others, ?_, rfl, ?_, ?_⟩
      · simp [Items.chars, blanks_append]
      · simp [Items.values]
      · simp [Items.values, itemsDepth, shallow]
    next => simp at read

theorem members_written {fuel : Nat} (values : ValueWritten fuel) (members : MembersWritten fuel) :
    MembersWritten (fuel + 1) := by
  intro depth done front chars found rest read
  rw [readMembers?] at read
  obtain ⟨before, others, rfl, skipped⟩ := skipBlanks_ofChars chars
  rw [skipped] at read
  split at read
  next spelled =>
    obtain ⟨others, rfl, rfl⟩ := ofChars_eq_cons (by decide) spelled
    split at read
    next => simp at read
    next key behind keyRead =>
      obtain ⟨signs, others, rfl, rfl, rfl⟩ := exists_signs keyRead
      obtain ⟨beforeColon, others, rfl, skipped⟩ := skipBlanks_ofChars others
      rw [skipped] at read
      split at read
      next spelled =>
        obtain ⟨others, rfl, rfl⟩ := ofChars_eq_cons (by decide) spelled
        split at read
        next => simp at read
        next value behind valueRead =>
          obtain ⟨behindColon, written, others, rfl, rfl, rfl, shallow⟩ := values _ _ _ _ valueRead
          obtain ⟨after, others, rfl, skipped⟩ := skipBlanks_ofChars others
          rw [skipped] at read
          split at read
          next spelled =>
            obtain ⟨others, rfl, rfl⟩ := ofChars_eq_cons (by decide) spelled
            obtain ⟨further, others, split, rfl, rfl, deep⟩ := members depth _ [] _ _ _ read
            refine ⟨.cons (front ++ before) signs beforeColon behindColon written after further,
              others, ?_, rfl, ?_, ?_⟩
            · rw [blanks, List.map_nil, List.nil_append] at split
              simp [Members.chars, blanks_append, split, Sign.quoted]
            · simp [Members.pairs]
            · simp [Members.pairs, membersDepth, shallow, deep]
          next spelled =>
            obtain ⟨others, rfl, rfl⟩ := ofChars_eq_cons (by decide) spelled
            obtain ⟨rfl, rfl⟩ := Prod.mk.inj (Option.some.inj read)
            refine ⟨.last (front ++ before) signs beforeColon behindColon written after,
              others, ?_, rfl, ?_, ?_⟩
            · simp [Members.chars, blanks_append, Sign.quoted]
            · simp [Members.pairs]
            · simp [Members.pairs, membersDepth, shallow]
          next => simp at read
      next => simp at read
  next => simp at read

theorem scalar_written {chars : List Char} {value : Json} {rest : Text}
    (read : (match dropPrefix? (utf8 "null") (ofChars chars) with
      | some rest => some (Json.null, rest)
      | none =>
        match dropPrefix? (utf8 "true") (ofChars chars) with
        | some rest => some (Json.boolean true, rest)
        | none =>
          match dropPrefix? (utf8 "false") (ofChars chars) with
          | some rest => some (Json.boolean false, rest)
          | none => (readNumber? (ofChars chars)).map fun (digits, rest) =>
              (.number digits, rest)) = some (value, rest)) :
    ∃ written others, chars = Written.chars written ++ others ∧ rest = ofChars others ∧
      written.value = value ∧ value.depth = 0 := by
  split at read
  next dropped =>
    obtain ⟨rfl, rfl⟩ := Prod.mk.inj (Option.some.inj read)
    obtain ⟨others, rfl, rfl⟩ := exists_word (forall_mem_of_all (by decide)) dropped
    exact ⟨.null, others, by simp [Written.chars], rfl, rfl, rfl⟩
  next =>
    split at read
    next dropped =>
      obtain ⟨rfl, rfl⟩ := Prod.mk.inj (Option.some.inj read)
      obtain ⟨others, rfl, rfl⟩ := exists_word (forall_mem_of_all (by decide)) dropped
      exact ⟨.boolean true, others, by simp [Written.chars, ofBool], rfl, rfl, rfl⟩
    next =>
      split at read
      next dropped =>
        obtain ⟨rfl, rfl⟩ := Prod.mk.inj (Option.some.inj read)
        obtain ⟨others, rfl, rfl⟩ := exists_word (forall_mem_of_all (by decide)) dropped
        exact ⟨.boolean false, others, by simp [Written.chars, ofBool], rfl, rfl, rfl⟩
      next =>
        obtain ⟨⟨digits, behind⟩, found, same⟩ := Option.map_eq_some_iff.mp read
        obtain ⟨rfl, rfl⟩ := Prod.mk.inj same
        obtain ⟨spelled, isNumber⟩ := isNumber_of_readNumber? found
        obtain ⟨others, rfl, rfl⟩ := ofChars_eq_append isNumber.ascii spelled
        exact ⟨.number digits isNumber, others, by simp [Written.chars], rfl, rfl, rfl⟩

theorem value_written {fuel : Nat} (items : ItemsWritten fuel) (members : MembersWritten fuel) :
    ValueWritten (fuel + 1) := by
  intro depth chars value rest read
  rw [readValue?] at read
  obtain ⟨front, others, rfl, skipped⟩ := skipBlanks_ofChars chars
  rw [skipped] at read
  split at read
  next => simp at read
  next behind spelled =>
    obtain ⟨others, rfl, rfl⟩ := ofChars_eq_cons (by decide) spelled
    obtain ⟨⟨text, behind⟩, found, same⟩ := Option.map_eq_some_iff.mp read
    obtain ⟨rfl, rfl⟩ := Prod.mk.inj same
    obtain ⟨signs, others, rfl, rfl, rfl⟩ := exists_signs found
    exact ⟨front, .string signs, others, by simp [Written.chars, Sign.quoted], rfl, rfl,
      Nat.zero_le _⟩
  next behind spelled =>
    obtain ⟨others, rfl, rfl⟩ := ofChars_eq_cons (by decide) spelled
    obtain ⟨inside, others, rfl, skipped⟩ := skipBlanks_ofChars others
    rw [skipped] at read
    split at read
    next => simp at read
    next spelled =>
      obtain ⟨others, rfl, rfl⟩ := ofChars_eq_cons (by decide) spelled
      obtain ⟨rfl, rfl⟩ := Prod.mk.inj (Option.some.inj read)
      exact ⟨front, .emptyArray inside, others, by simp [Written.chars], rfl, rfl,
        by simp [depth, itemsDepth]⟩
    next =>
      obtain ⟨⟨values, behind⟩, found, same⟩ := Option.map_eq_some_iff.mp read
      obtain ⟨rfl, rfl⟩ := Prod.mk.inj same
      obtain ⟨written, others, split, rfl, rfl, shallow⟩ := items _ _ inside _ _ _ found
      refine ⟨front, .array written, others, ?_, rfl, rfl, ?_⟩
      · simp [Written.chars, split]
      · simpa [depth] using shallow
  next behind spelled =>
    obtain ⟨others, rfl, rfl⟩ := ofChars_eq_cons (by decide) spelled
    obtain ⟨inside, others, rfl, skipped⟩ := skipBlanks_ofChars others
    rw [skipped] at read
    split at read
    next => simp at read
    next spelled =>
      obtain ⟨others, rfl, rfl⟩ := ofChars_eq_cons (by decide) spelled
      obtain ⟨rfl, rfl⟩ := Prod.mk.inj (Option.some.inj read)
      exact ⟨front, .emptyObject inside, others, by simp [Written.chars], rfl, rfl,
        by simp [depth, membersDepth]⟩
    next =>
      obtain ⟨⟨pairs, behind⟩, found, same⟩ := Option.map_eq_some_iff.mp read
      obtain ⟨rfl, rfl⟩ := Prod.mk.inj same
      obtain ⟨written, others, split, rfl, rfl, shallow⟩ := members _ _ inside _ _ _ found
      refine ⟨front, .object written, others, ?_, rfl, rfl, ?_⟩
      · simp [Written.chars, split]
      · simpa [depth] using shallow
  next =>
    obtain ⟨written, others, rfl, rfl, rfl, flat⟩ := scalar_written read
    exact ⟨front, written, others, by simp, rfl, rfl, by omega⟩

/-- The readers go over what the grammar writes, whatever the fuel lasts for. -/
theorem all_written (fuel : Nat) : ValueWritten fuel ∧ ItemsWritten fuel ∧ MembersWritten fuel := by
  induction fuel with
  | zero =>
      refine ⟨?_, ?_, ?_⟩
      · intro depth chars value rest read
        simp [readValue?] at read
      · intro depth done front chars items rest read
        simp [readItems?] at read
      · intro depth done front chars members rest read
        simp [readMembers?] at read
  | succ fuel ih =>
      obtain ⟨values, items, members⟩ := ih
      exact ⟨value_written items members, items_written values items,
        members_written values members⟩

theorem exists_document {chars : List Char} {value : Json}
    (read : read? (ofChars chars) = some value) :
    value.depth ≤ greatestDepth ∧
      ∃ document : Document, document.chars = chars ∧ document.value = value := by
  unfold read? at read
  split at read
  next found behind valueRead =>
    split at read
    next nothing =>
      obtain rfl := Option.some.inj read
      obtain ⟨before, written, others, rfl, rfl, rfl, shallow⟩ :=
        (all_written _).1 _ _ _ _ valueRead
      obtain ⟨after, others, rfl, skipped⟩ := skipBlanks_ofChars others
      rw [skipped, List.isEmpty_iff, ofChars_eq_nil] at nothing
      exact ⟨shallow, ⟨before, written, after⟩, by simp [Document.chars, nothing], rfl⟩
    next => simp at read
  next => simp at read

end Json

end EntitySchema
