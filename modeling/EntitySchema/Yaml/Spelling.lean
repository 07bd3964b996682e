import EntitySchema.Text.Rune
import EntitySchema.Yaml.Resolve

/-!
How a scalar is written. A text asks for a style; whether it gets that style depends on the
characters in it, and the double-quoted style admits every text.
-/

namespace EntitySchema.Yaml

structure Spelling where
  tag : Option Text := none
  style : ScalarStyle := .plain
  text : Text
  deriving DecidableEq, Repr

/-- A character that may stand as it is. Characters beyond the first plane do not. -/
def isPrintable (char : Char) : Bool :=
  char = '\n' || (' ' ≤ char && char ≤ '~') ||
    (Char.ofNat 0xA0 ≤ char && char ≤ Char.ofNat 0xFFFD && char ≠ Char.ofNat 0xFEFF)

def hasPair (first second : Char → Bool) : List Char → Bool
  | char :: next :: rest => (first char && second next) || hasPair first second (next :: rest)
  | _ => false

def hasIndicator (chars : List Char) : Bool :=
  ['-', '-', '-'].isPrefixOf chars || ['.', '.', '.'].isPrefixOf chars ||
    hasPair (· = ':') isBlank chars || chars.getLast? = some ':' ||
    hasPair isBlank (· = '#') chars ||
    match chars with
    | [] => false
    | first :: rest =>
      "#,[]\x7b\x7d&*!|>'\"%@`".toList.contains first ||
        ((first = '?' || first = '-') && (rest.isEmpty || rest.head?.any isBlank))

def hasSpecial (chars : List Char) : Bool :=
  chars.any fun char => !isPrintable char && char ≠ '\t'

def admitsPlain (chars : List Char) : Bool :=
  !chars.any isBreak && chars.head? ≠ some ' ' && chars.getLast? ≠ some ' ' &&
    !chars.contains '\t' && !hasSpecial chars && !hasIndicator chars

def admitsSingleQuoted (chars : List Char) : Bool :=
  !hasPair isBreak (· = ' ') chars && !hasPair (· = ' ') isBreak chars &&
    !chars.contains '\t' && !hasSpecial chars

def admitsLiteral (chars : List Char) : Bool :=
  !chars.isEmpty && chars.getLast? ≠ some ' ' && !hasPair (· = ' ') isBreak chars &&
    !hasSpecial chars

def escapeChar (char : Char) : Text :=
  match char.toNat with
  | 0x00 => utf8 "\\0"
  | 0x07 => utf8 "\\a"
  | 0x08 => utf8 "\\b"
  | 0x09 => utf8 "\\t"
  | 0x0A => utf8 "\\n"
  | 0x0B => utf8 "\\v"
  | 0x0C => utf8 "\\f"
  | 0x0D => utf8 "\\r"
  | 0x1B => utf8 "\\e"
  | 0x22 => utf8 "\\\""
  | 0x5C => utf8 "\\\\"
  | 0x85 => utf8 "\\N"
  | 0xA0 => utf8 "\\_"
  | 0x2028 => utf8 "\\L"
  | 0x2029 => utf8 "\\P"
  | code =>
    if code ≤ 0xFF then utf8 "\\x" ++ Text.upperHex 2 code
    else if code ≤ 0xFFFF then utf8 "\\u" ++ Text.upperHex 4 code
    else utf8 "\\U" ++ Text.upperHex 8 code

/-- The content of double quotes. Behind a byte order mark at its start all of it is escaped. -/
def doubleQuoted (chars : List Char) : Text :=
  let startsMarked := chars.head?.any fun char => char.toNat = 0xFEFF
  utf8 "\"" ++ (chars.flatMap fun char =>
    if startsMarked || !isPrintable char || isBreak char || char.toNat = 0x22 ||
        char.toNat = 0x5C then
      escapeChar char
    else Text.ofChars [char]) ++ utf8 "\""

def indentLines (column : Nat) : (atStart : Bool) → List Char → Text
  | _, [] => []
  | atStart, char :: chars =>
    if isBreak char then Text.ofChars [char] ++ indentLines column true chars
    else (if atStart then Text.spaces column else []) ++ Text.ofChars [char] ++
      indentLines column false chars

def singleQuoted (column : Nat) (chars : List Char) : Text :=
  let doubled := chars.flatMap fun char => if char.toNat = 0x27 then [char, char] else [char]
  utf8 "'" ++ indentLines column false doubled ++ utf8 "'"

def chompMark (chars : List Char) : Text :=
  match chars.reverse with
  | [] => utf8 "-"
  | last :: before =>
    if !isBreak last then utf8 "-"
    else if (before.head?.map isBreak).getD true then utf8 "+"
    else []

/-- A literal text with its header; a line break at its start ends the header line. -/
def literal (step column : Nat) (chars : List Char) : Text :=
  let startsBlank := chars.head?.any fun char => char = ' ' || isBreak char
  let startsBroken := chars.head?.any isBreak
  utf8 "|" ++ (if startsBlank then Text.ofNat step else []) ++ chompMark chars ++
    (if startsBroken then [] else utf8 "\n") ++ indentLines column true chars

namespace Spelling

def chars (spelling : Spelling) : List Char := spelling.text.runes.map Rune.char

def booleanWords : List Text :=
  [utf8 "y", utf8 "Y", utf8 "yes", utf8 "Yes", utf8 "YES", utf8 "on", utf8 "On", utf8 "ON",
    utf8 "n", utf8 "N", utf8 "no", utf8 "No", utf8 "NO", utf8 "off", utf8 "Off", utf8 "OFF"]

def isSixtieth (group : Text) : Bool :=
  match group with
  | [digit] => Text.isAsciiDigit digit
  | [tens, digit] => Text.isAsciiDigit tens && tens < 0x36 && Text.isAsciiDigit digit
  | _ => false

/-- Numbers that older readers take for sexagesimal, such as `12:30` and `1:02:03.5`. -/
def isSexagesimal (text : Text) : Bool :=
  let digits := match text with
    | 0x2B :: rest => rest
    | 0x2D :: rest => rest
    | rest => rest
  match Text.splitOn 0x3A digits with
  | [] => false
  | [_] => false
  | first :: groups =>
    let isNumeral := fun byte => Text.isAsciiDigit byte || byte = 0x5F
    let last := Text.splitOn 0x2E (groups.getLastD [])
    (first.head?.any Text.isAsciiDigit) && first.all isNumeral &&
      groups.dropLast.all isSixtieth && isSixtieth (last.headD []) &&
      last.length ≤ 2 && (last.getD 1 []).all isNumeral

def readsAsString (text : Text) : Bool := (plainMeaning none text).1 = Tag.string

def styleFor (text : Text) (mayBePlain : Bool) : ScalarStyle :=
  if text.contains 0x0A then .literal else if mayBePlain then .plain else .doubleQuoted

def ofString (text : Text) : Spelling :=
  if Text.isWellFormed text then
    { style := styleFor text
        (readsAsString text && !isSexagesimal text && !booleanWords.contains text)
      text := text }
  else
    let encoded := Base64.encodeLines text
    { tag := some Tag.binary, style := styleFor encoded true, text := encoded }

def ofName? (text : Text) : Option Spelling :=
  if Text.isWellFormed text then some { style := styleFor text (readsAsString text), text := text }
  else none

def admittedStyle (isKey : Bool) (spelling : Spelling) : ScalarStyle :=
  let quoted := if admitsSingleQuoted spelling.chars then .singleQuoted else .doubleQuoted
  match spelling.style with
  | .plain =>
    if admitsPlain spelling.chars && !(isKey && spelling.text.isEmpty) then .plain else quoted
  | .singleQuoted => quoted
  | .doubleQuoted => .doubleQuoted
  | .literal => if admitsLiteral spelling.chars && !isKey then .literal else .doubleQuoted
  | .folded => if admitsLiteral spelling.chars && !isKey then .literal else .doubleQuoted

/--
What is read when a scalar has been written: the style is settled, a plain `<<` is taken for a
merge key, and a line break at the start of a literal text is lost. A literal text that starts with
a tab cannot be read.
-/
def reread? (spelling : Spelling) : Option Spelling :=
  let style := admittedStyle false spelling
  let startsBroken := spelling.chars.head?.any isBreak
  if style = .plain && spelling.tag = none && spelling.text = utf8 "<<" then
    some { spelling with tag := some (utf8 "!!merge") }
  else if style = .literal && spelling.chars.head? = some '\t' then none
  else if style = .literal && startsBroken then
    some { spelling with text := Text.ofChars (spelling.chars.drop 1) }
  else some { spelling with style := style }

def render (step column : Nat) (isKey : Bool) (spelling : Spelling) : Text :=
  (match spelling.tag with
    | none => []
    | some tag => tag ++ utf8 " ") ++
  match admittedStyle isKey spelling with
  | .plain => spelling.text
  | .singleQuoted => singleQuoted column spelling.chars
  | .doubleQuoted => doubleQuoted spelling.chars
  | .literal => literal step column spelling.chars
  | .folded => literal step column spelling.chars

def endsLine (spelling : Spelling) : Bool :=
  admittedStyle false spelling = .literal && spelling.chars.getLast?.any isBreak

def renderLine (step column : Nat) (spelling : Spelling) : Text :=
  let text := spelling.render step column false
  if spelling.endsLine then text else text ++ utf8 "\n"

def keyWidth : Nat := 128

def isSimpleKey (spelling : Spelling) : Bool :=
  !spelling.chars.any isBreak && spelling.text.length ≤ keyWidth

end Spelling

end EntitySchema.Yaml
