import EntitySchema.Proofs.Json.Reading

/-!
Texts in quotes. Whatever a well-formed text holds, its quoted form is read back as the text, and
the blanks in it are kept when a document is squeezed.
-/

namespace EntitySchema

namespace Text

def IsUtf8 (text : Text) : Prop := ∃ chars, text = ofChars chars

theorem runes_ofChars (chars : List Char) : runes (ofChars chars) = chars.map Rune.ofChar := by
  induction chars with
  | nil => rfl
  | cons char chars ih =>
      obtain ⟨first, tail, shape, _, read⟩ := Rune.leading_encode char (ofChars chars)
      rw [ofChars_cons, shape, List.cons_append, runes_cons, read]
      simp only [List.length_cons, Nat.add_sub_cancel, List.drop_left, ih, List.map_cons,
        Rune.ofChar, shape]

theorem hexValue?_hexDigit {value : Nat} (small : value < 16) :
    hexValue? (hexDigit value) = some value := by
  have all : ∀ value < 16, hexValue? (hexDigit value) = some value := by decide
  exact all value small

end Text

namespace Json

open Text

/-- Where a byte of a JSON text stands: behind a backslash, elsewhere in a string, or in none. -/
inductive Place where
  | outside
  | inside
  | escaped

def squeezeFrom : Place → Text → Text
  | _, [] => []
  | .outside, byte :: rest =>
    if isBlank byte then squeezeFrom .outside rest
    else byte :: squeezeFrom (if byte = 0x22 then .inside else .outside) rest
  | .inside, byte :: rest =>
    byte :: squeezeFrom
      (if byte = 0x22 then .outside else if byte = 0x5C then .escaped else .inside) rest
  | .escaped, byte :: rest => byte :: squeezeFrom .inside rest

def squeeze (text : Text) : Text := squeezeFrom .outside text

/-- Between quotes, the piece is read as the character and squeezed to itself. -/
structure Spells (piece : Text) (char : Char) : Prop where
  read : ∃ cost ≤ piece.length, ∀ fuel done rest, readString? (fuel + cost) done (piece ++ rest) =
    readString? fuel ((String.utf8EncodeChar char).reverse ++ done) rest
  squeezed : ∀ rest, squeezeFrom .inside (piece ++ rest) = piece ++ squeezeFrom .inside rest

def IsRawByte (byte : Byte) : Prop := 0x20 ≤ byte ∧ byte ≠ 0x22 ∧ byte ≠ 0x5C

theorem readString?_raws {piece : Text} (raw : ∀ byte ∈ piece, IsRawByte byte)
    (fuel : Nat) (done rest : Text) :
    readString? (fuel + piece.length) done (piece ++ rest) =
      readString? fuel (piece.reverse ++ done) rest := by
  induction piece generalizing done with
  | nil => rfl
  | cons byte piece ih =>
      rw [List.forall_mem_cons] at raw
      obtain ⟨⟨visible, notQuote, notEscape⟩, others⟩ := raw
      rw [List.length_cons, ← Nat.add_assoc, List.cons_append,
        readString?_raw notQuote notEscape, if_neg (UInt8.not_lt.mpr visible), ih others]
      simp

theorem squeezeFrom_raws {piece : Text} (raw : ∀ byte ∈ piece, IsRawByte byte) (rest : Text) :
    squeezeFrom .inside (piece ++ rest) = piece ++ squeezeFrom .inside rest := by
  induction piece with
  | nil => rfl
  | cons byte piece ih =>
      rw [List.forall_mem_cons] at raw
      obtain ⟨⟨_, notQuote, notEscape⟩, others⟩ := raw
      simp [squeezeFrom, notQuote, notEscape, ih others]

theorem spells_raw {char : Char} (raw : ∀ byte ∈ String.utf8EncodeChar char, IsRawByte byte) :
    Spells (String.utf8EncodeChar char) char where
  read := ⟨_, Nat.le_refl _, fun fuel done rest => readString?_raws raw fuel done rest⟩
  squeezed := squeezeFrom_raws raw

theorem spells_escape (mark : Byte) {byte : Byte} (simple : simpleEscape? mark = some byte)
    {char : Char} (encoded : String.utf8EncodeChar char = [byte]) : Spells [0x5C, mark] char where
  read := by
    refine ⟨1, by simp, fun fuel done rest => ?_⟩
    have notUnit : mark ≠ 0x75 := by
      rintro rfl
      simp [simpleEscape?] at simple
    rw [List.cons_append, List.cons_append, List.nil_append, readString?, simple, encoded]
    · rfl
    · simpa using notUnit
  squeezed := by
    intro rest
    simp [squeezeFrom]

theorem readHex4?_hex {code : Nat} (small : code < 0x10000) (rest : Text) :
    readHex4? (hex 4 code ++ rest) = some (code, rest) := by
  have digits : hex 4 code = [hexDigit (code / 16 / 16 / 16 % 16), hexDigit (code / 16 / 16 % 16),
      hexDigit (code / 16 % 16), hexDigit (code % 16)] := rfl
  have value {code : Nat} : hexValue? (hexDigit (code % 16)) = some (code % 16) :=
    hexValue?_hexDigit (Nat.mod_lt _ (by decide))
  rw [digits]
  simp only [List.cons_append, List.nil_append, readHex4?, value, Option.bind_eq_bind,
    Option.bind_some, Option.some.injEq, Prod.mk.injEq, and_true]
  omega

theorem spells_unit (char : Char) (small : char.toNat < 0xD800) :
    Spells (utf8 "\\u" ++ hex 4 char.toNat) char where
  read := by
    refine ⟨1, by simp [show utf8 "\\u" = [0x5C, 0x75] from rfl], fun fuel done rest => ?_⟩
    have single : isHighSurrogate char.toNat = false := by
      simp [isHighSurrogate]
      omega
    have encoded : encodeCode char.toNat = String.utf8EncodeChar char := by
      have valid : char.toNat.isValidChar := char.valid
      rw [encodeCode, if_pos valid, Char.ofNat_toNat, ofChars_cons, ofChars_nil, List.append_nil]
    rw [show utf8 "\\u" = [0x5C, 0x75] from rfl]
    simp only [List.cons_append, List.nil_append]
    rw [readString?, readHex4?_hex (by omega)]
    simp only [single, encoded]
  squeezed := by
    intro rest
    have digits (value : Nat) : hexDigit (value % 16) ≠ 0x22 ∧ hexDigit (value % 16) ≠ 0x5C := by
      have all : ∀ value < 16, hexDigit value ≠ 0x22 ∧ hexDigit value ≠ 0x5C := by decide
      exact all _ (Nat.mod_lt _ (by decide))
    simp [show utf8 "\\u" = [0x5C, 0x75] from rfl, hex, hexWith, squeezeFrom, digits]

theorem isMalformed_ofChar (char : Char) : (Rune.ofChar char).isMalformed = false := by
  rw [Rune.isMalformed, Bool.and_eq_false_iff]
  by_cases same : char = Rune.replacement
  · subst same
    exact Or.inr (by decide)
  · exact Or.inl (decide_eq_false same)

theorem isRawByte_of_encode {char : Char} (visible : 0x20 ≤ char.toNat) (notQuote : char ≠ '"')
    (notEscape : char ≠ '\\') : ∀ byte ∈ String.utf8EncodeChar char, IsRawByte byte := by
  intro byte member
  rcases Rune.encode_cases char with ⟨ascii, encoded⟩ | ⟨_, high⟩
  · obtain rfl : byte = char.toNat.toUInt8 := by simpa [encoded] using member
    have value : char.toNat.toUInt8.toNat = char.toNat :=
      UInt8.toNat_ofNat_of_lt' (Nat.lt_trans ascii (by decide))
    have other (code : Nat) (small : code < 0x80) (different : char ≠ Char.ofNat code) :
        char.toNat.toUInt8 ≠ code.toUInt8 := by
      intro same
      have codes := congrArg UInt8.toNat same
      rw [value, Nat.toUInt8_eq, UInt8.toNat_ofNat_of_lt' (Nat.lt_trans small (by decide))] at codes
      exact different (by rw [← codes, Char.ofNat_toNat])
    refine ⟨?_, other 0x22 (by decide) notQuote,
      other 0x5C (by decide) notEscape⟩
    rw [UInt8.le_iff_toNat_le, value]
    exact visible
  · have large := UInt8.le_iff_toNat_le.mp (high byte member)
    refine ⟨UInt8.le_trans (by decide) (high byte member), ?_, ?_⟩ <;> rintro rfl <;>
      simp at large

theorem spells_control {char : Char} (control : char.toNat < 0x20) :
    Spells (match char.toNat with
      | 0x08 => utf8 "\\b"
      | 0x0C => utf8 "\\f"
      | 0x0A => utf8 "\\n"
      | 0x0D => utf8 "\\r"
      | 0x09 => utf8 "\\t"
      | _ => utf8 "\\u" ++ hex 4 char.toNat) char := by
  have named {code : Nat} (same : char.toNat = code) : char = Char.ofNat code := by
    rw [← same, Char.ofNat_toNat]
  split
  next same => exact named same ▸ spells_escape 0x62 rfl rfl
  next same => exact named same ▸ spells_escape 0x66 rfl rfl
  next same => exact named same ▸ spells_escape 0x6E rfl rfl
  next same => exact named same ▸ spells_escape 0x72 rfl rfl
  next same => exact named same ▸ spells_escape 0x74 rfl rfl
  next => exact spells_unit char (by omega)

theorem spells_escapeRune (char : Char) : Spells (escapeRune (Rune.ofChar char)) char := by
  have known : (Rune.ofChar char).char = char := rfl
  simp only [escapeRune, isMalformed_ofChar, Bool.false_eq_true, if_false]
  split_ifs with quote escape separator visible
  · exact known.symm.trans quote ▸ spells_escape 0x22 rfl rfl
  · exact known.symm.trans escape ▸ spells_escape 0x5C rfl rfl
  · refine spells_unit (Rune.ofChar char).char ?_
    rw [Bool.or_eq_true, decide_eq_true_eq, decide_eq_true_eq] at separator
    omega
  · exact spells_raw (isRawByte_of_encode visible quote escape)
  · exact spells_control (Nat.lt_of_not_le visible)

theorem readString?_escaped (chars : List Char) {fuel : Nat} (done rest : Text)
    (enough : ((chars.map Rune.ofChar).flatMap escapeRune).length < fuel) :
    readString? fuel done ((chars.map Rune.ofChar).flatMap escapeRune ++ 0x22 :: rest) =
      some (done.reverse ++ ofChars chars, rest) := by
  induction chars generalizing fuel done with
  | nil =>
      obtain ⟨fuel, rfl⟩ := Nat.exists_eq_add_one_of_ne_zero (Nat.ne_of_gt enough)
      simp [readString?]
  | cons char chars ih =>
      obtain ⟨cost, most, read⟩ := (spells_escapeRune char).read
      simp only [List.map_cons, List.flatMap_cons, List.length_append] at enough ⊢
      obtain ⟨others, rfl⟩ := Nat.exists_eq_add_of_le' (by omega : cost ≤ fuel)
      rw [List.append_assoc, read, ih _ (by omega), ofChars_cons]
      simp

theorem squeezeFrom_escaped (chars : List Char) (rest : Text) :
    squeezeFrom .inside ((chars.map Rune.ofChar).flatMap escapeRune ++ rest) =
      (chars.map Rune.ofChar).flatMap escapeRune ++ squeezeFrom .inside rest := by
  induction chars with
  | nil => rfl
  | cons char chars ih =>
      rw [List.map_cons, List.flatMap_cons, List.append_assoc, (spells_escapeRune char).squeezed,
        ih, List.append_assoc]

theorem quote_eq (text : Text) :
    quote text = 0x22 :: (text.runes.flatMap escapeRune ++ [0x22]) := by
  rw [quote, show utf8 "\"" = [0x22] from rfl]
  rfl

theorem readString?_quote {text : Text} (isUtf8 : text.IsUtf8) (rest : Text) :
    readString? ((text.runes.flatMap escapeRune ++ 0x22 :: rest).length + 1) []
      (text.runes.flatMap escapeRune ++ 0x22 :: rest) = some (text, rest) := by
  obtain ⟨chars, rfl⟩ := isUtf8
  rw [runes_ofChars]
  refine readString?_escaped chars [] rest ?_
  simp only [List.length_append]
  omega

theorem squeezeFrom_quote {text : Text} (isUtf8 : text.IsUtf8) (rest : Text) :
    squeezeFrom .outside (quote text ++ rest) = quote text ++ squeezeFrom .outside rest := by
  obtain ⟨chars, rfl⟩ := isUtf8
  rw [quote_eq, runes_ofChars, List.cons_append, List.append_assoc, squeezeFrom,
    if_neg (by decide), if_pos rfl, squeezeFrom_escaped]
  simp [squeezeFrom]

end Json

end EntitySchema
