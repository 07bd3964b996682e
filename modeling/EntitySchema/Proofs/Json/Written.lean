import EntitySchema.Proofs.Number.Digits
import EntitySchema.Proofs.Text.Encoding
import EntitySchema.Json.Reader

/-!
The grammar of JSON texts. A written document keeps its blanks and the spelling of its strings and
numbers, so its characters and its value are both functions of it. Every text that is read as JSON
is the text of such a document, with the value that was read.
-/

namespace EntitySchema

namespace Json

mutual

def depth : Json → Nat
  | .array items => itemsDepth items + 1
  | .object members => membersDepth members + 1
  | _ => 0

def itemsDepth : List Json → Nat
  | [] => 0
  | item :: items => max item.depth (itemsDepth items)

def membersDepth : List (Text × Json) → Nat
  | [] => 0
  | (_, value) :: members => max value.depth (membersDepth members)

end

inductive Blank where
  | space
  | tab
  | lineFeed
  | carriageReturn
  deriving DecidableEq

namespace Blank

def char : Blank → Char
  | .space => ' '
  | .tab => '\t'
  | .lineFeed => '\n'
  | .carriageReturn => '\r'

def breaksLine : Blank → Bool
  | .lineFeed => true
  | .carriageReturn => true
  | _ => false

end Blank

structure HexDigit where
  char : Char
  value : Nat
  isHex : char.toNat < 0x80 ∧ Text.hexValue? char.toNat.toUInt8 = some value

structure CodeUnit where
  first : HexDigit
  second : HexDigit
  third : HexDigit
  fourth : HexDigit

namespace CodeUnit

def chars (unit : CodeUnit) : List Char :=
  [unit.first.char, unit.second.char, unit.third.char, unit.fourth.char]

def code (unit : CodeUnit) : Nat :=
  ((unit.first.value * 16 + unit.second.value) * 16 + unit.third.value) * 16 + unit.fourth.value

end CodeUnit

inductive Escape where
  | quote
  | backslash
  | slash
  | backspace
  | formFeed
  | lineFeed
  | carriageReturn
  | tab
  deriving DecidableEq

namespace Escape

def mark : Escape → Char
  | .quote => '"'
  | .backslash => '\\'
  | .slash => '/'
  | .backspace => 'b'
  | .formFeed => 'f'
  | .lineFeed => 'n'
  | .carriageReturn => 'r'
  | .tab => 't'

def char : Escape → Char
  | .quote => '"'
  | .backslash => '\\'
  | .slash => '/'
  | .backspace => Char.ofNat 0x08
  | .formFeed => Char.ofNat 0x0C
  | .lineFeed => '\n'
  | .carriageReturn => '\r'
  | .tab => '\t'

end Escape

def IsRaw (char : Char) : Prop := 0x20 ≤ char.toNat ∧ char ≠ '"' ∧ char ≠ '\\'

/-- One step of what stands between two quotes. -/
inductive Sign where
  | raw (char : Char) (isRaw : IsRaw char)
  | escape (escaped : Escape)
  | unit (code : CodeUnit)

namespace Sign

def chars : Sign → List Char
  | .raw char _ => [char]
  | .escape escaped => ['\\', escaped.mark]
  | .unit code => '\\' :: 'u' :: code.chars

/-- The text that signs stand for; two surrogates in their order are one character. -/
def textOf : List Sign → Text
  | [] => []
  | .raw char _ :: signs => Text.ofChars [char] ++ textOf signs
  | .escape escaped :: signs => Text.ofChars [escaped.char] ++ textOf signs
  | .unit high :: .unit low :: signs =>
    if isHighSurrogate high.code && isLowSurrogate low.code then
      encodeCode (0x10000 + (high.code - 0xD800) * 0x400 + (low.code - 0xDC00)) ++ textOf signs
    else encodeCode high.code ++ textOf (.unit low :: signs)
  | .unit single :: signs => encodeCode single.code ++ textOf signs

def quoted (signs : List Sign) : List Char := '"' :: signs.flatMap chars ++ ['"']

end Sign

inductive IsWhole : Text → Prop
  | zero : IsWhole [0x30]
  | digits {text : Text} : text.IsDigits → text.head? ≠ some 0x30 → IsWhole text

inductive IsFraction : Text → Prop
  | none : IsFraction []
  | digits {digits : Text} : digits.IsDigits → IsFraction (0x2E :: digits)

inductive IsExponent : Text → Prop
  | none : IsExponent []
  | digits {mark : Byte} {sign digits : Text} : mark ∈ [0x65, 0x45] →
      sign ∈ [[], [0x2B], [0x2D]] → digits.IsDigits → IsExponent (mark :: sign ++ digits)

inductive IsNumber : Text → Prop
  | parts {sign whole fraction exponent : Text} : sign ∈ [[], [0x2D]] → IsWhole whole →
      IsFraction fraction → IsExponent exponent →
      IsNumber (sign ++ whole ++ fraction ++ exponent)

def asciiChars (text : Text) : List Char := text.map fun byte => Char.ofNat byte.toNat

theorem ofChars_asciiChars {text : Text} (ascii : ∀ byte ∈ text, byte < 0x80) :
    Text.ofChars (asciiChars text) = text := by
  induction text with
  | nil => rfl
  | cons byte text ih =>
      rw [List.forall_mem_cons] at ascii
      have code := Rune.ofByte_char_toNat ascii.1
      rw [Rune.ofByte] at code
      have spelled : String.utf8EncodeChar (Char.ofNat byte.toNat) = [byte] := by
        obtain ⟨_, spelled⟩ | ⟨high, _⟩ := Rune.encode_cases (Char.ofNat byte.toNat)
        · rw [spelled, code]
          simp
        · rw [code] at high
          exact absurd (UInt8.lt_iff_toNat_lt.mp ascii.1) (Nat.not_lt.mpr high)
      rw [asciiChars, List.map_cons, Text.ofChars_cons, spelled, ← asciiChars, ih ascii.2]
      rfl

mutual

inductive Written where
  | null
  | boolean (value : Bool)
  | number (text : Text) (isNumber : IsNumber text)
  | string (signs : List Sign)
  | emptyArray (inside : List Blank)
  | array (items : Items)
  | emptyObject (inside : List Blank)
  | object (members : Members)

inductive Items where
  | last (before : List Blank) (item : Written) (behind : List Blank)
  | cons (before : List Blank) (item : Written) (behind : List Blank) (others : Items)

inductive Members where
  | last (before : List Blank) (key : List Sign) (beforeColon behindColon : List Blank)
      (value : Written) (behind : List Blank)
  | cons (before : List Blank) (key : List Sign) (beforeColon behindColon : List Blank)
      (value : Written) (behind : List Blank) (others : Members)

end

def blanks (blanks : List Blank) : List Char := blanks.map Blank.char

mutual

def Written.chars : Written → List Char
  | .null => asciiChars (utf8 "null")
  | .boolean value => asciiChars (ofBool value)
  | .number text _ => asciiChars text
  | .string signs => Sign.quoted signs
  | .emptyArray inside => '[' :: blanks inside ++ [']']
  | .array items => '[' :: items.chars ++ [']']
  | .emptyObject inside => Char.ofNat 0x7B :: blanks inside ++ [Char.ofNat 0x7D]
  | .object members => Char.ofNat 0x7B :: members.chars ++ [Char.ofNat 0x7D]

def Items.chars : Items → List Char
  | .last before item behind => blanks before ++ item.chars ++ blanks behind
  | .cons before item behind others =>
    blanks before ++ item.chars ++ blanks behind ++ ',' :: others.chars

def Members.chars : Members → List Char
  | .last before key beforeColon behindColon value behind =>
    blanks before ++ Sign.quoted key ++ blanks beforeColon ++ ':' :: blanks behindColon ++
      value.chars ++ blanks behind
  | .cons before key beforeColon behindColon value behind others =>
    blanks before ++ Sign.quoted key ++ blanks beforeColon ++ ':' :: blanks behindColon ++
      value.chars ++ blanks behind ++ ',' :: others.chars

end

mutual

def Written.value : Written → Json
  | .null => .null
  | .boolean value => .boolean value
  | .number text _ => .number text
  | .string signs => .string (Sign.textOf signs)
  | .emptyArray _ => .array []
  | .array items => .array items.values
  | .emptyObject _ => .object []
  | .object members => .object members.pairs

def Items.values : Items → List Json
  | .last _ item _ => [item.value]
  | .cons _ item _ others => item.value :: others.values

def Members.pairs : Members → List (Text × Json)
  | .last _ key _ _ value _ => [(Sign.textOf key, value.value)]
  | .cons _ key _ _ value _ others => (Sign.textOf key, value.value) :: others.pairs

end

structure Document where
  before : List Blank
  root : Written
  behind : List Blank

namespace Document

def chars (document : Document) : List Char :=
  blanks document.before ++ document.root.chars ++ blanks document.behind

def value (document : Document) : Json := document.root.value

end Document

end Json

end EntitySchema
