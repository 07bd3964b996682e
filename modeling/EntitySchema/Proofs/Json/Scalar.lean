import EntitySchema.Proofs.Json.Reading
import EntitySchema.Proofs.Yaml.Movement
import EntitySchema.Yaml.Scalar

/-!
Strings, numbers and words of JSON as YAML scalars. A string is read between double quotes, up to
escapes that YAML does not know, and a number or a word is a plain scalar up to the blanks behind
it.
-/

namespace EntitySchema

open Yaml

namespace Json

theorem isAlphanum_iff (char : Char) : char.isAlphanum = true ↔
    (0x30 ≤ char.toNat ∧ char.toNat ≤ 0x39) ∨ (0x41 ≤ char.toNat ∧ char.toNat ≤ 0x5A) ∨
      (0x61 ≤ char.toNat ∧ char.toNat ≤ 0x7A) := by
  have ranges : char.isAlphanum =
      ((decide ('A'.val ≤ char.val ∧ char.val ≤ 'Z'.val) ||
        (decide ('a'.val ≤ char.val) && decide (char.val ≤ 'z'.val))) ||
        (decide ('0'.val ≤ char.val) && decide (char.val ≤ '9'.val))) := rfl
  rw [ranges]
  simp only [Bool.or_eq_true, Bool.and_eq_true, decide_eq_true_eq, UInt32.le_iff_toNat_le,
    Char.toNat_val, Char.reduceToNat]
  omega

def IsWordSign (char : Char) : Prop := char.isAlphanum = true ∨ char ∈ ['+', '-', '.']

namespace IsWordSign

theorem ne {char other : Char} (sign : IsWordSign char)
    (special : other.isAlphanum = false ∧ other ∉ ['+', '-', '.']) : char ≠ other := by
  rintro rfl
  rcases sign with alphanum | sign
  · exact absurd alphanum (by simp [special.1])
  · exact special.2 sign

theorem toNat_lt {char : Char} (sign : IsWordSign char) : char.toNat < 0x80 := by
  rcases sign with alphanum | sign
  · have range := (isAlphanum_iff char).mp alphanum
    omega
  · have all : ∀ char ∈ ['+', '-', '.'], char.toNat < 0x80 := forall_mem_of_all (by decide)
    exact all char sign

theorem isGap {char : Char} (sign : IsWordSign char) : Yaml.isGap (some char) = false := by
  have low := sign.toNat_lt
  have space := sign.ne (show _ ∧ ' ' ∉ _ by decide)
  have tab := sign.ne (show _ ∧ '\t' ∉ _ by decide)
  have lineFeed := sign.ne (show _ ∧ '\n' ∉ _ by decide)
  have carriageReturn := sign.ne (show _ ∧ '\r' ∉ _ by decide)
  simp [Yaml.isGap, Yaml.isBlank, isBreak, space, tab, lineFeed, carriageReturn]
  omega

end IsWordSign

namespace HexDigit

theorem value_lt (digit : HexDigit) : digit.value < 16 := by
  have isHex := digit.isHex.2
  generalize digit.char.toNat.toUInt8 = byte at isHex
  simp only [Text.hexValue?, Bool.and_eq_true, decide_eq_true_eq, UInt8.le_iff_toNat_le,
    UInt8.reduceToNat] at isHex
  split_ifs at isHex <;> simp only [Option.some.injEq] at isHex <;> omega

theorem isAlphanum (digit : HexDigit) : digit.char.isAlphanum = true := by
  obtain ⟨ascii, isHex⟩ := digit.isHex
  have code : digit.char.toNat.toUInt8.toNat = digit.char.toNat :=
    UInt8.toNat_ofNat_of_lt' (Nat.lt_trans ascii (by decide))
  rw [isAlphanum_iff]
  simp only [Text.hexValue?, Bool.and_eq_true, decide_eq_true_eq, UInt8.le_iff_toNat_le,
    UInt8.reduceToNat, code] at isHex
  split_ifs at isHex <;> omega

end HexDigit

theorem CodeUnit.code_lt (unit : CodeUnit) : unit.code < 0x10000 := by
  have first := unit.first.value_lt
  have second := unit.second.value_lt
  have third := unit.third.value_lt
  have fourth := unit.fourth.value_lt
  unfold CodeUnit.code
  omega

def CodeUnit.IsChar (unit : CodeUnit) : Prop := unit.code < 0xD800 ∨ 0xE000 ≤ unit.code

theorem CodeUnit.IsChar.isValidChar {unit : CodeUnit} (isChar : unit.IsChar) :
    unit.code.isValidChar := by
  have bound := unit.code_lt
  rcases isChar with low | high
  · exact Or.inl low
  · exact Or.inr ⟨by omega, by omega⟩

namespace Sign

/-- The signs that YAML reads as JSON does, whatever stands beside them. -/
def FitsYaml : Sign → Prop
  | .raw char _ => isAllowed char = true ∧ isBreak char = false ∧ char ≠ byteOrderMark
  | .escape escaped => escaped ≠ .slash
  | .unit single => single.IsChar

def char : Sign → Char
  | .raw char _ => char
  | .escape escaped => escaped.char
  | .unit single => Char.ofNat single.code

theorem textOf_of_fits {signs : List Sign} (fits : ∀ sign ∈ signs, sign.FitsYaml) :
    textOf signs = Text.ofChars (signs.map char) := by
  induction signs with
  | nil => rfl
  | cons sign signs ih =>
      rw [List.forall_mem_cons] at fits
      rw [List.map_cons, Text.ofChars_cons, ← ih fits.2]
      cases sign with
      | raw => simp [textOf, Text.ofChars_cons, char]
      | escape => simp [textOf, Text.ofChars_cons, char]
      | unit single =>
          have isChar : single.IsChar := fits.1
          have notHigh : isHighSurrogate single.code ≠ true := by
            simp only [isHighSurrogate, Bool.and_eq_true, decide_eq_true_eq, Ne]
            rcases isChar with low | high <;> omega
          rw [textOf_unit [] fun high => absurd high notHigh, encodeCode, if_pos isChar.isValidChar]
          simp [Text.ofChars_cons, char]

theorem unbroken_of_fits {sign : Sign} (fits : sign.FitsYaml) :
    ∀ char ∈ sign.chars, isBreak char = false := by
  cases sign with
  | raw char => simpa [chars] using fits.2.1
  | escape escaped => cases escaped <;> exact forall_mem_of_all (by decide)
  | unit single =>
      have digit (digit : HexDigit) : isBreak digit.char = false := by
        have gap := IsWordSign.isGap (Or.inl digit.isAlphanum)
        exact (Bool.or_eq_false_iff.mp gap).2
      simp [chars, CodeUnit.chars, digit]
      decide

theorem unbroken_of_all {signs : List Sign} (fits : ∀ sign ∈ signs, sign.FitsYaml) :
    ∀ char ∈ signs.flatMap chars, isBreak char = false := by
  intro char member
  obtain ⟨sign, isSign, isChar⟩ := List.mem_flatMap.mp member
  exact unbroken_of_fits (fits sign isSign) char isChar

end Sign

end Json

namespace Yaml.Scalar

open Source Json

variable {source : Source} {signs : List Sign} {rest : List Char}

theorem hexEscape?_chars {unit : CodeUnit} (isChar : unit.IsChar) (rest : List Char) :
    hexEscape? unit.chars.length (unit.chars ++ rest) = some (Char.ofNat unit.code) := by
  have digit (digit : HexDigit) : hexCharValue? digit.char = some digit.value := by
    rw [hexCharValue?, if_pos digit.isHex.1, digit.isHex.2]
  have values : unit.chars.mapM hexCharValue? =
      some [unit.first.value, unit.second.value, unit.third.value, unit.fourth.value] := by
    simp [CodeUnit.chars, digit]
  have code : [unit.first.value, unit.second.value, unit.third.value, unit.fourth.value].foldl
      (fun code digit => code * 16 + digit) 0 = unit.code := by
    simp [CodeUnit.code]
  have size : unit.chars.length = 4 := rfl
  rw [hexEscape?, List.take_left, values]
  simp only [Option.bind_eq_bind, Option.bind_some, code]
  rw [if_pos ⟨size.symm, isChar.isValidChar⟩]

theorem escaped?_mark {escaped : Escape} (known : escaped ≠ .slash) :
    escaped? escaped.mark = some escaped.char := by
  cases escaped with
  | slash => exact absurd rfl known
  | _ => rfl

theorem isGap_of_raw {char : Char} (isRaw : IsRaw char) (fits : (Sign.raw char isRaw).FitsYaml)
    (noSpace : char ≠ ' ') : isGap (some char) = false := by
  have tab : char ≠ '\t' := by
    rintro rfl
    exact absurd isRaw.1 (by decide)
  simp [isGap, isBlank, noSpace, tab, fits.2.1]

theorem readRun?_sign {sign : Sign} (fits : sign.FitsYaml) (noSpace : sign.chars ≠ [' '])
    (ahead : source.rest = sign.chars ++ rest) :
    ∃ target, source.Moves sign.chars target ∧ ∀ fuel done,
      readRun? false (fuel + 1) done source = readRun? false fuel (sign.char :: done) target := by
  have backslash : isGap (some '\\') = false := by decide
  cases sign with
  | raw char isRaw =>
      have gap := isGap_of_raw isRaw fits fun same => noSpace (by simp [Sign.chars, same])
      refine ⟨_, (moves_skip ahead).trans (moves_want source.skip 2), fun fuel done => ?_⟩
      simp only [readRun?, ahead]
      simp [Sign.chars, gap, isRaw.2.1, isRaw.2.2, Sign.char]
  | escape escaped =>
      have unbroken : isBreak escaped.mark = false := by cases escaped <;> decide
      refine ⟨_, (moves_skip_skip ahead).trans (moves_want source.skip.skip 2),
        fun fuel done => ?_⟩
      simp only [readRun?, ahead]
      simp [Sign.chars, backslash, unbroken, escaped?_mark fits, Sign.char]
  | unit single =>
      have opening := moves_skip_skip ahead
      have digits : source.skip.skip.rest = single.chars ++ rest := opening.rest_eq ahead
      have wanted : (source.skip.skip.want single.chars.length).rest = single.chars ++ rest := by
        rw [want_rest, digits]
      have unbroken : isBreak 'u' = false := by decide
      have unnamed : escaped? 'u' = none := rfl
      have wide : escapeWidth? 'u' = some single.chars.length := rfl
      refine ⟨_, (opening.trans (moves_of_want (moves_skipMany wanted))).trans (moves_want _ 2),
        fun fuel done => ?_⟩
      simp only [readRun?, ahead]
      simp [Sign.chars, backslash, unbroken, unnamed, wide, hexEscape?_chars fits, Sign.char]

theorem readRun?_signs (fits : ∀ sign ∈ signs, sign.FitsYaml)
    (noSpace : ∀ sign ∈ signs, sign.chars ≠ [' ']) {next : Char} (ends : next = '"' ∨ next = ' ')
    (ahead : source.rest = signs.flatMap Sign.chars ++ next :: rest) {fuel : Nat}
    (enough : signs.length < fuel) :
    ∃ target, source.Moves (signs.flatMap Sign.chars) target ∧ ∀ done,
      readRun? false fuel done source = some ((signs.map Sign.char).reverse ++ done,
        if next = '"' then .quote else .gap, target) := by
  induction signs generalizing source fuel with
  | nil =>
      obtain ⟨fuel, rfl⟩ := Nat.exists_eq_succ_of_ne_zero (Nat.ne_zero_of_lt enough)
      refine ⟨source, .refl source, fun done => ?_⟩
      rw [List.flatMap_nil, List.nil_append] at ahead
      simp only [readRun?, ahead]
      rcases ends with rfl | rfl <;> rfl
  | cons sign signs ih =>
      obtain ⟨fuel, rfl⟩ := Nat.exists_eq_succ_of_ne_zero (Nat.ne_zero_of_lt enough)
      rw [List.forall_mem_cons] at fits noSpace
      rw [List.flatMap_cons, List.append_assoc] at ahead
      obtain ⟨middle, moves, step⟩ := readRun?_sign fits.1 noSpace.1 ahead
      obtain ⟨target, further, read⟩ := ih fits.2 noSpace.2 (moves.rest_eq ahead)
        (Nat.lt_of_succ_lt_succ enough)
      refine ⟨target, moves.trans further, fun done => ?_⟩
      rw [step, read, List.map_cons, List.reverse_cons, List.append_assoc, List.singleton_append]

theorem moves_skipBreak_gap {char next : Char} {chars : List Char} (broken : isBreak char = true)
    (stops : isGap (some next) = false) (ahead : source.rest = char :: (chars ++ next :: rest)) :
    ∃ taken others, char :: chars = taken ++ others ∧ source.Moves taken source.skipBreak ∧
      others.length ≤ chars.length := by
  rcases moves_skipBreak ahead broken with moves | ⟨others, rfl, behind, moves⟩
  · exact ⟨[char], chars, rfl, moves, Nat.le_refl _⟩
  · cases chars with
    | nil =>
        obtain ⟨rfl, rfl⟩ := List.cons.inj behind
        exact absurd stops (by decide)
    | cons second chars =>
        obtain ⟨rfl, _⟩ := List.cons.inj behind
        exact ⟨['\r', '\n'], chars, rfl, moves, Nat.le_succ _⟩

theorem readGap?_chars {chars : List Char} {next : Char}
    (gaps : ∀ char ∈ chars, isGap (some char) = true) (stops : isGap (some next) = false)
    (ahead : source.rest = chars ++ next :: rest) {fuel : Nat} (enough : chars.length < fuel)
    (gap : Gap) :
    ∃ reached target, source.Moves chars target ∧
      readGap? 0 fuel gap source = some (reached, target) ∧
      ((∀ char ∈ chars, isBreak char = false) → gap.breaks = [] →
        reached = { gap with blanks := chars.reverse ++ gap.blanks }) := by
  induction fuel generalizing source chars gap with
  | zero => simp at enough
  | succ fuel ih =>
      cases chars with
      | nil =>
          refine ⟨gap, source, .refl source, ?_, fun _ _ => rfl⟩
          rw [List.nil_append] at ahead
          obtain ⟨noBlank, noBreak⟩ := Bool.or_eq_false_iff.mp stops
          simp [readGap?, peek?, ahead, noBlank, noBreak]
      | cons char chars =>
          rw [List.forall_mem_cons] at gaps
          have fewer : chars.length < fuel := by simpa using enough
          have peeked : source.peek? = some char := by rw [peek?, ahead]; rfl
          by_cases blank : isBlank char = true
          · have moves := (moves_skip ahead).trans (moves_want source.skip 1)
            by_cases multiline : gap.isMultiline = true
            · obtain ⟨reached, target, further, read, _⟩ :=
                ih gaps.2 (moves.rest_eq ahead) fewer gap
              refine ⟨reached, target, moves.trans further, ?_, fun _ single => ?_⟩
              · simp [readGap?, peeked, blank, multiline, read]
              · simp [Gap.isMultiline, single] at multiline
            · obtain ⟨reached, target, further, read, folds⟩ :=
                ih gaps.2 (moves.rest_eq ahead) fewer { gap with blanks := char :: gap.blanks }
              refine ⟨reached, target, moves.trans further, ?_, fun unbroken single => ?_⟩
              · simp [readGap?, peeked, blank, multiline, read]
              · rw [List.forall_mem_cons] at unbroken
                simp [folds unbroken.2 single]
          · have broken : isBreak char = true := by simpa [isGap, blank] using gaps.1
            -- nothing is said of the folded text here, only of where the gap ends
            obtain ⟨taken, others, split, breakMoves, shorter⟩ :=
              moves_skipBreak_gap broken stops ahead
            have moves := breakMoves.trans (moves_want source.skipBreak 1)
            rw [List.append_nil] at moves
            rw [split, List.append_assoc] at ahead
            have behind := moves.rest_eq ahead
            have gaps' : ∀ char ∈ others, isGap (some char) = true := by
              have all : ∀ other ∈ char :: chars, isGap (some other) = true :=
                List.forall_mem_cons.mpr gaps
              exact fun other member => all other (split ▸ List.mem_append_right taken member)
            obtain ⟨reached, target, further, read, _⟩ := ih gaps' behind
              (Nat.lt_of_le_of_lt shorter fewer)
              { gap with breaks := source.breakChar :: gap.breaks }
            refine ⟨reached, target, split ▸ moves.trans further, ?_, fun unbroken _ => ?_⟩
            · simp [readGap?, peeked, blank, broken, read]
            · simp [unbroken char (by simp)] at broken

def isSpace (sign : Sign) : Bool := sign.chars = [' ']

theorem length_le_flatMap (signs : List Sign) :
    signs.length ≤ (signs.flatMap Sign.chars).length := by
  induction signs with
  | nil => simp
  | cons sign signs ih =>
      have nonempty : 0 < sign.chars.length := by cases sign <;> simp [Sign.chars]
      rw [List.flatMap_cons, List.length_append, List.length_cons]
      omega

theorem flatMap_of_spaces (spaces : ∀ sign ∈ signs, isSpace sign = true) :
    signs.flatMap Sign.chars = signs.map Sign.char ∧
      ∀ char ∈ signs.flatMap Sign.chars, char = ' ' := by
  induction signs with
  | nil => exact ⟨rfl, by simp⟩
  | cons sign signs ih =>
      rw [List.forall_mem_cons] at spaces
      obtain ⟨same, blank⟩ := ih spaces.2
      cases sign with
      | raw char isRaw =>
          have space : char = ' ' := by simpa [isSpace, Sign.chars] using spaces.1
          subst space
          exact ⟨by simp [Sign.chars, Sign.char, same], by simpa [Sign.chars] using blank⟩
      | escape escaped => simp [isSpace, Sign.chars] at spaces
      | unit single => simp [isSpace, Sign.chars] at spaces

theorem exists_stop (fits : ∀ sign ∈ signs, sign.FitsYaml)
    (noSpace : ∀ sign ∈ signs.head?, isSpace sign = false) (rest : List Char) :
    ∃ next others, signs.flatMap Sign.chars ++ '"' :: rest = next :: others ∧
      isGap (some next) = false := by
  cases signs with
  | nil => exact ⟨'"', rest, rfl, by decide⟩
  | cons sign signs =>
      have fit := fits sign (by simp)
      cases sign with
      | raw char isRaw =>
          refine ⟨char, _, rfl, isGap_of_raw isRaw fit ?_⟩
          rintro rfl
          exact absurd (noSpace _ rfl) (by simp [isSpace, Sign.chars])
      | escape escaped => exact ⟨'\\', _, rfl, by decide⟩
      | unit single => exact ⟨'\\', _, rfl, by decide⟩

theorem isAtDocumentMark_of_inside (inside : 0 < source.column) :
    source.isAtDocumentMark = false := by
  have column : source.column ≠ 0 := Nat.ne_of_gt inside
  simp [isAtDocumentMark, isAtMark, column]

theorem exists_cut (test : Sign → Bool) (signs : List Sign) :
    ∃ front back, signs = front ++ back ∧ (∀ sign ∈ front, test sign = true) ∧
      ∀ sign ∈ back.head?, test sign = false := by
  refine ⟨signs.takeWhile test, signs.dropWhile test, List.takeWhile_append_dropWhile.symm,
    fun sign => List.mem_takeWhile_imp, fun sign first => ?_⟩
  have stops := List.head?_dropWhile_not test signs
  rwa [first] at stops

theorem readGap?_spaces {spaces : List Sign} (all : ∀ sign ∈ spaces, isSpace sign = true)
    {next : Char} (stops : isGap (some next) = false)
    (ahead : source.rest = spaces.flatMap Sign.chars ++ next :: rest) (clean : source.Clean) :
    ∃ gap target, source.Moves (spaces.flatMap Sign.chars) target ∧
      readGap? 0 (source.remaining + 1) {} source = some (gap, target) ∧
      gap.fold = spaces.map Sign.char := by
  obtain ⟨same, blank⟩ := flatMap_of_spaces all
  have gaps : ∀ char ∈ spaces.flatMap Sign.chars, isGap (some char) = true := by
    intro char member
    rw [blank char member]
    decide
  have unbroken : ∀ char ∈ spaces.flatMap Sign.chars, isBreak char = false := by
    intro char member
    rw [blank char member]
    decide
  have enough : (spaces.flatMap Sign.chars).length < source.remaining + 1 := by
    rw [clean.remaining, ahead, List.length_append]
    omega
  obtain ⟨gap, target, moves, read, reached⟩ := readGap?_chars gaps stops ahead enough {}
  refine ⟨gap, target, moves, read, ?_⟩
  rw [reached unbroken rfl, same]
  simp [Gap.fold]

theorem readRun?_word {word : List Sign} (fits : ∀ sign ∈ word, sign.FitsYaml)
    (noSpace : ∀ sign ∈ word, isSpace sign = false) {next : Char} (ends : next = '"' ∨ next = ' ')
    (ahead : source.rest = word.flatMap Sign.chars ++ next :: rest) (clean : source.Clean)
    (inside : 0 < source.column) :
    ((source.want 4).isAtDocumentMark || (source.want 4).isAtEnd) = false ∧
      ∃ target, source.Moves (word.flatMap Sign.chars) target ∧ ∀ done,
        readRun? false ((source.want 4).remaining + 1) done (source.want 4) =
          some ((word.map Sign.char).reverse ++ done, if next = '"' then .quote else .gap,
            target) := by
  have wanted : (source.want 4).rest = word.flatMap Sign.chars ++ next :: rest := by
    rw [want_rest, ahead]
  have noMark : (source.want 4).isAtDocumentMark = false :=
    isAtDocumentMark_of_inside (by rwa [want_column])
  have notAtEnd : (source.want 4).isAtEnd = false := by simp [isAtEnd, ahead]
  have enough : word.length < (source.want 4).remaining + 1 := by
    have size := length_le_flatMap word
    rw [((moves_want source 4).clean clean).remaining, wanted, List.length_append]
    omega
  obtain ⟨target, moves, read⟩ :=
    readRun?_signs fits (by simpa [isSpace] using noSpace) ends wanted enough
  exact ⟨by rw [noMark, notAtEnd, Bool.or_self], target, moves_of_want moves, read⟩

theorem readQuotedFrom?_last {word : List Sign} (fits : ∀ sign ∈ word, sign.FitsYaml)
    (noSpace : ∀ sign ∈ word, isSpace sign = false)
    (ahead : source.rest = word.flatMap Sign.chars ++ '"' :: rest) (clean : source.Clean)
    (inside : 0 < source.column) (fuel : Nat) (done : List Char) :
    ∃ target, source.Moves (word.flatMap Sign.chars ++ ['"']) target ∧
      readQuotedFrom? false (fuel + 1) done source =
        some (done.reverse ++ word.map Sign.char, target) := by
  obtain ⟨goesOn, target, moves, read⟩ :=
    readRun?_word fits noSpace (Or.inl rfl) ahead clean inside
  refine ⟨target.skip, moves.trans (moves_skip (moves.rest_eq ahead)), ?_⟩
  rw [readQuotedFrom?, goesOn, read]
  simp

theorem readQuotedFrom?_spaced {word spaces : List Sign} (fits : ∀ sign ∈ word, sign.FitsYaml)
    (noSpace : ∀ sign ∈ word, isSpace sign = false)
    (all : ∀ sign ∈ spaces, isSpace sign = true) (nonempty : spaces ≠ []) {next : Char}
    (stops : isGap (some next) = false)
    (ahead : source.rest =
      word.flatMap Sign.chars ++ (spaces.flatMap Sign.chars ++ next :: rest))
    (clean : source.Clean) (inside : 0 < source.column) :
    ∃ target, source.Moves ((word ++ spaces).flatMap Sign.chars) target ∧ ∀ fuel done,
      readQuotedFrom? false (fuel + 1) done source =
        readQuotedFrom? false fuel (((word ++ spaces).map Sign.char).reverse ++ done) target := by
  obtain ⟨behind, opens⟩ : ∃ behind,
      spaces.flatMap Sign.chars ++ next :: rest = ' ' :: behind := by
    obtain ⟨space, others, rfl⟩ := List.exists_cons_of_ne_nil nonempty
    have isSpace : space.chars = [' '] := by simpa [isSpace] using all space (by simp)
    exact ⟨_, by rw [List.flatMap_cons, isSpace, List.append_assoc, List.singleton_append]⟩
  obtain ⟨goesOn, middle, moves, read⟩ :=
    readRun?_word fits noSpace (Or.inr rfl) (opens ▸ ahead) clean inside
  obtain ⟨gap, target, gapMoves, gapRead, folded⟩ :=
    readGap?_spaces all stops (moves.rest_eq ahead) (moves.clean clean)
  refine ⟨target, List.flatMap_append ▸ moves.trans gapMoves, fun fuel done => ?_⟩
  rw [readQuotedFrom?, goesOn, read]
  simp [gapRead, folded]

theorem readQuotedFrom?_signs (fits : ∀ sign ∈ signs, sign.FitsYaml)
    (ahead : source.rest = signs.flatMap Sign.chars ++ '"' :: rest) (clean : source.Clean)
    (inside : 0 < source.column) {fuel : Nat} (enough : signs.length < fuel) (done : List Char) :
    ∃ target, source.Moves (signs.flatMap Sign.chars ++ ['"']) target ∧
      readQuotedFrom? false fuel done source =
        some (done.reverse ++ signs.map Sign.char, target) := by
  induction fuel generalizing source signs done with
  | zero => simp at enough
  | succ fuel ih =>
      -- a run of signs up to the first space, the spaces there, and what comes behind them
      obtain ⟨word, back, rfl, wordSigns, backHead⟩ := exists_cut (fun sign => !isSpace sign) signs
      obtain ⟨spaces, others, rfl, spacesAll, othersHead⟩ := exists_cut isSpace back
      have noSpace : ∀ sign ∈ word, isSpace sign = false := by simpa using wordSigns
      rw [List.forall_mem_append, List.forall_mem_append] at fits
      by_cases nonempty : spaces = []
      · subst nonempty
        have nothing : others = [] := by
          cases others with
          | nil => rfl
          | cons sign others => simp [othersHead sign rfl] at backHead
        subst nothing
        simpa using
          readQuotedFrom?_last fits.1 noSpace (by simpa using ahead) clean inside fuel done
      · obtain ⟨next, behind, stop, stops⟩ := exists_stop fits.2.2 othersHead rest
        have atWord : source.rest =
            word.flatMap Sign.chars ++ (spaces.flatMap Sign.chars ++ next :: behind) := by
          simp [ahead, ← stop]
        obtain ⟨middle, moves, step⟩ := readQuotedFrom?_spaced fits.1 noSpace spacesAll nonempty
          stops atWord clean inside
        have unbroken : ∀ char ∈ (word ++ spaces).flatMap Sign.chars, isBreak char = false :=
          Sign.unbroken_of_all (List.forall_mem_append.mpr ⟨fits.1, fits.2.1⟩)
        have column : 0 < middle.column := by
          rw [moves.column unbroken]
          exact Nat.lt_of_lt_of_le inside (Nat.le_add_right _ _)
        have fewer : others.length < fuel := by
          have more := List.length_pos_of_ne_nil nonempty
          simp only [List.length_append] at enough
          omega
        obtain ⟨target, further, read⟩ := ih fits.2.2
          ((moves.rest_eq (by simpa using atWord)).trans stop.symm) (moves.clean clean) column fewer
          (((word ++ spaces).map Sign.char).reverse ++ done)
        refine ⟨target, by simpa using moves.trans further, ?_⟩
        rw [step, read]
        simp

theorem readQuoted?_signs (fits : ∀ sign ∈ signs, sign.FitsYaml)
    (ahead : source.rest = Sign.quoted signs ++ rest) (clean : source.Clean) :
    ∃ target, source.Moves (Sign.quoted signs) target ∧
      readQuoted? false source = some (signs.map Sign.char, target) := by
  rw [Sign.quoted, List.cons_append, List.cons_append, List.append_assoc] at ahead
  have quote := moves_skip ahead
  have inside : 0 < source.skip.column := by
    rw [quote.column (forall_mem_of_all (by decide))]
    exact Nat.succ_pos _
  have enough : signs.length < source.remaining + 2 := by
    have size := length_le_flatMap signs
    rw [clean.remaining, ahead, List.length_cons, List.length_append]
    omega
  obtain ⟨target, moves, read⟩ := readQuotedFrom?_signs fits (quote.rest_eq ahead)
    (quote.clean clean) inside enough []
  exact ⟨target, quote.trans moves, read⟩

inductive IsPlainWord : List Char → Prop
  | unsigned {first : Char} {others : List Char} : first.isAlphanum = true →
      (∀ char ∈ others, IsWordSign char) → IsPlainWord (first :: others)
  | negative {first : Char} {others : List Char} : first.isAlphanum = true →
      (∀ char ∈ others, IsWordSign char) → IsPlainWord ('-' :: first :: others)

namespace IsPlainWord

variable {word : List Char}

theorem isWordSign (plain : IsPlainWord word) : ∀ char ∈ word, IsWordSign char := by
  cases plain with
  | unsigned first others => exact List.forall_mem_cons.mpr ⟨Or.inl first, others⟩
  | negative first others =>
      exact List.forall_mem_cons.mpr ⟨Or.inr (by decide),
        List.forall_mem_cons.mpr ⟨Or.inl first, others⟩⟩

theorem ne_nil (plain : IsPlainWord word) : word ≠ [] := by
  cases plain <;> simp

theorem isOver_eq_false (plain : IsPlainWord word) (ahead : source.rest = word ++ rest) :
    (source.isAtDocumentMark || source.nextIs '#') = false := by
  have notSign {char : Char} (alphanum : char.isAlphanum = true) :
      char ≠ '-' ∧ char ≠ '.' ∧ char ≠ '#' := by
    refine ⟨?_, ?_, ?_⟩ <;> rintro rfl <;> exact absurd alphanum (by decide)
  cases plain with
  | unsigned first others =>
      obtain ⟨noMinus, noPoint, noHash⟩ := notSign first
      simp [isAtDocumentMark, isAtMark, nextIs, peek?, ahead, noMinus, noPoint, noHash]
  | negative first others =>
      obtain ⟨noMinus, noPoint, noHash⟩ := notSign first
      simp [isAtDocumentMark, isAtMark, nextIs, peek?, ahead, noMinus]

theorem ofNumber {text : Text} (isNumber : IsNumber text) : IsPlainWord (asciiChars text) := by
  have code {byte : Byte} (sign : IsNumberSign byte) :
      (Char.ofNat byte.toNat).toNat = byte.toNat := Rune.ofByte_char_toNat sign.ascii
  have digit {byte : Byte} (isDigit : Text.isAsciiDigit byte = true) :
      (Char.ofNat byte.toNat).isAlphanum = true := by
    rw [isAlphanum_iff, code (Or.inl isDigit)]
    exact Or.inl ((Text.isAsciiDigit_iff byte).mp isDigit)
  have wordSign {byte : Byte} (sign : IsNumberSign byte) :
      IsWordSign (Char.ofNat byte.toNat) := by
    rcases sign with isDigit | sign
    · exact Or.inl (digit isDigit)
    · have all : ∀ byte ∈ ([0x2B, 0x2D, 0x2E, 0x45, 0x65] : Text),
          (Char.ofNat byte.toNat).isAlphanum = true ∨
            Char.ofNat byte.toNat ∈ ['+', '-', '.'] := forall_mem_of_all (by decide)
      exact all byte sign
  have all := isNumber.isNumberSign
  obtain ⟨sign, first, others, rfl, isSign, isDigit⟩ := isNumber.exists_digit
  simp only [List.forall_mem_append, List.forall_mem_cons] at all
  have behind : ∀ char ∈ asciiChars others, IsWordSign char := by
    intro char member
    obtain ⟨byte, isByte, rfl⟩ := List.mem_map.mp member
    exact wordSign (all.2.2 byte isByte)
  rcases sign_cases isSign with rfl | rfl
  · exact .unsigned (digit isDigit) behind
  · exact .negative (digit isDigit) behind

theorem ofWord {text : Text} (isWord : text ∈ [utf8 "null", utf8 "true", utf8 "false"]) :
    IsPlainWord (asciiChars text) := by
  simp only [List.mem_cons, List.not_mem_nil, or_false] at isWord
  have letters {first : Char} {others : List Char}
      (all : ∀ char ∈ first :: others, char.isAlphanum = true) : IsPlainWord (first :: others) :=
    .unsigned (all first (by simp)) fun char member => Or.inl (all char (by simp [member]))
  rcases isWord with rfl | rfl | rfl <;> exact letters (forall_mem_of_all (by decide))

end IsPlainWord

theorem wordSize_signs {word : List Char} (signs : ∀ char ∈ word, IsWordSign char)
    (ends : wordSize true rest = 0) : wordSize true (word ++ rest) = word.length := by
  induction word with
  | nil => exact ends
  | cons char word ih =>
      rw [List.forall_mem_cons] at signs
      have sign := signs.1
      have colon := sign.ne (show _ ∧ ':' ∉ _ by decide)
      have flow : isFlowIndicator char = false := by
        simp only [isFlowIndicator, Bool.or_eq_false_iff, decide_eq_false_iff_not]
        refine ⟨⟨⟨⟨⟨?_, ?_⟩, ?_⟩, ?_⟩, ?_⟩, ?_⟩ <;> exact sign.ne (by decide)
      simp [wordSize, sign.isGap, colon, flow, ih signs.2]

def EndsItem (char : Char) : Prop := char ∈ [',', ']', Char.ofNat 0x7D]

namespace EndsItem

variable {next : Char}

theorem facts (ends : EndsItem next) : Yaml.isGap (some next) = false ∧
    isFlowIndicator next = true ∧ next ≠ '-' ∧ next ≠ '.' ∧ next ≠ '#' := by
  have all : ∀ char ∈ [',', ']', Char.ofNat 0x7D], Yaml.isGap (some char) = false ∧
      isFlowIndicator char = true ∧ char ≠ '-' ∧ char ≠ '.' ∧ char ≠ '#' :=
    forall_mem_of_all (by decide)
  exact all next ends

theorem isGap (ends : EndsItem next) : isGap (some next) = false := ends.facts.1

theorem isOver_eq_false (ends : EndsItem next) (ahead : source.rest = next :: rest) :
    (source.isAtDocumentMark || source.nextIs '#') = false := by
  simp [isAtDocumentMark, isAtMark, nextIs, peek?, ahead, ends.facts]

theorem wordSize (ends : EndsItem next) (rest : List Char) : wordSize true (next :: rest) = 0 := by
  simp [Scalar.wordSize, ends.facts]

theorem readPlainFrom? (ends : EndsItem next) (ahead : source.rest = next :: rest) {fuel : Nat}
    (enough : 0 < fuel) (done : List Char) (gap : Gap) :
    readPlainFrom? true 0 fuel done gap source =
      some (done.reverse, gap.isMultiline, source.want 4) := by
  obtain ⟨fuel, rfl⟩ := Nat.exists_eq_succ_of_ne_zero (Nat.ne_of_gt enough)
  have notOver := ends.isOver_eq_false (show (source.want 4).rest = next :: rest by
    rw [want_rest, ahead])
  simp [Scalar.readPlainFrom?, notOver, ahead, ends.wordSize]

end EndsItem

theorem readPlain?_first {word : List Char} (plain : IsPlainWord word)
    (ends : wordSize true rest = 0) (ahead : source.rest = word ++ rest) :
    ∃ target, source.Moves word target ∧ readPlain? true 0 source =
      if target.isAtBlank || target.isAtBreak then
        match readGap? 0 (target.remaining + 1) {} target with
        | none => none
        | some (gap, behind) => readPlainFrom? true 0 source.remaining word.reverse gap behind
      else some (word, false, target) := by
  have wanted : (source.want 4).rest = word ++ rest := by rw [want_rest, ahead]
  have notOver := plain.isOver_eq_false wanted
  have size := wordSize_signs plain.isWordSign ends
  have nonempty : word.length ≠ 0 := by simpa using plain.ne_nil
  refine ⟨_, moves_of_want (moves_pass 2 wanted), ?_⟩
  rw [readPlain?, readPlainFrom?]
  simp only [notOver, wanted, size, nonempty, if_false, Bool.false_eq_true, List.take_left]
  simp only [Gap.fold, List.reverse_nil, List.append_nil, List.reverse_reverse]
  rfl

theorem readPlain?_word {word gaps : List Char} (plain : IsPlainWord word)
    (isGaps : ∀ char ∈ gaps, isGap (some char) = true) {next : Char} (ends : EndsItem next)
    (ahead : source.rest = word ++ (gaps ++ next :: rest)) (clean : source.Clean) :
    ∃ leftLine target, source.Moves (word ++ gaps) target ∧
      readPlain? true 0 source = some (word, leftLine, target) := by
  have stops : wordSize true (gaps ++ next :: rest) = 0 := by
    cases gaps with
    | nil => exact ends.wordSize rest
    | cons gap gaps => simp [wordSize, isGaps gap]
  obtain ⟨middle, moves, first⟩ := readPlain?_first plain stops ahead
  have behind := moves.rest_eq ahead
  have middleClean := moves.clean clean
  rw [first]
  -- without a gap the word ends the scalar, else the reader looks for another word behind it
  cases gaps with
  | nil =>
      have peeked : middle.peek? = some next := by rw [peek?, behind]; rfl
      have notAtGap : (middle.isAtBlank || middle.isAtBreak) = false := by
        rw [isAtBlank, isAtBreak, peeked]
        exact ends.isGap
      refine ⟨false, middle, by simpa using moves, ?_⟩
      rw [notAtGap, if_neg (by simp)]
  | cons gap gaps =>
      have peeked : middle.peek? = some gap := by rw [peek?, behind]; rfl
      have atGap : (middle.isAtBlank || middle.isAtBreak) = true := by
        rw [isAtBlank, isAtBreak, peeked]
        exact isGaps gap (by simp)
      have enough : (gap :: gaps).length < middle.remaining + 1 := by
        rw [middleClean.remaining, behind, List.length_append]
        omega
      obtain ⟨passed, target, further, read, _⟩ :=
        readGap?_chars isGaps ends.isGap behind enough {}
      have nonempty : 0 < source.remaining := by
        rw [clean.remaining, ahead]
        simp
      refine ⟨passed.isMultiline, target.want 4, ?_, ?_⟩
      · simpa using (moves.trans further).trans (moves_want target 4)
      · rw [atGap, if_pos rfl, read]
        simpa using ends.readPlainFrom? (further.rest_eq behind) nonempty word.reverse passed

end Yaml.Scalar

end EntitySchema
