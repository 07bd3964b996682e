import EntitySchema.Number.Decimal
import EntitySchema.Text.Base64
import EntitySchema.Value
import EntitySchema.Yaml.Node

/-!
What a scalar means. A plain scalar may be a null, a boolean, a number or a timestamp by its look;
every other notation is a string, unless a tag says otherwise.
-/

namespace EntitySchema.Yaml

namespace Tag

def string : Text := utf8 "!!str"

def null : Text := utf8 "!!null"

def boolean : Text := utf8 "!!bool"

def integer : Text := utf8 "!!int"

def float : Text := utf8 "!!float"

def timestamp : Text := utf8 "!!timestamp"

def binary : Text := utf8 "!!binary"

def ofLook : List Text := [null, boolean, integer, float, timestamp]

end Tag

def wordMeaning? (text : Text) : Option (Text × Value) :=
  if [utf8 "", utf8 "~", utf8 "null", utf8 "Null", utf8 "NULL"].contains text then
    some (Tag.null, .null)
  else if [utf8 "true", utf8 "True", utf8 "TRUE"].contains text then
    some (Tag.boolean, .boolean true)
  else if [utf8 "false", utf8 "False", utf8 "FALSE"].contains text then
    some (Tag.boolean, .boolean false)
  else if [utf8 ".nan", utf8 ".NaN", utf8 ".NAN"].contains text then
    some (Tag.float, .double .nan)
  else if [utf8 ".inf", utf8 ".Inf", utf8 ".INF", utf8 "+.inf", utf8 "+.Inf",
      utf8 "+.INF"].contains text then
    some (Tag.float, .double (.infinite false))
  else if [utf8 "-.inf", utf8 "-.Inf", utf8 "-.INF"].contains text then
    some (Tag.float, .double (.infinite true))
  else none

def digitIn? (base : Nat) (byte : Byte) : Option Nat :=
  let value :=
    if Text.isAsciiDigit byte then some (byte.toNat - 0x30)
    else if 0x61 ≤ byte && byte ≤ 0x7A then some (byte.toNat - 0x61 + 10)
    else if 0x41 ≤ byte && byte ≤ 0x5A then some (byte.toNat - 0x41 + 10)
    else none
  value.filter fun digit => digit < base

def numberIn? (base : Nat) (digits : Text) : Option Nat :=
  digits.foldlM (fun value byte => (digitIn? base byte).map (value * base + ·)) 0

def unsigned? (text : Text) : Option Nat :=
  match text with
  | [] => none
  | 0x30 :: mark :: digit :: digits =>
    if mark = 0x62 || mark = 0x42 then numberIn? 2 (digit :: digits)
    else if mark = 0x6F || mark = 0x4F then numberIn? 8 (digit :: digits)
    else if mark = 0x78 || mark = 0x58 then numberIn? 16 (digit :: digits)
    else numberIn? 8 (mark :: digit :: digits)
  | 0x30 :: digits => numberIn? 8 digits
  | digits => numberIn? 10 digits

def signedWith? (read : Text → Option Nat) (text : Text) : Option Int :=
  let negative := text.head? = some 0x2D
  let digits := if negative || text.head? = some 0x2B then text.drop 1 else text
  match read digits with
  | none => none
  | some size =>
    let value : Int := if negative then -size else size
    if Int64.minValue.toInt ≤ value ∧ value ≤ Int64.maxValue.toInt then some value else none

def nonemptyIn? (base : Nat) (digits : Text) : Option Nat :=
  if digits.isEmpty then none else numberIn? base digits

def prefixedSigned? (text : Text) : Option Int :=
  match text with
  | 0x30 :: 0x62 :: rest => signedWith? (nonemptyIn? 2) rest
  | 0x30 :: 0x6F :: rest => signedWith? (nonemptyIn? 8) rest
  | _ => none

def wholeNumber? (text : Text) : Option Value :=
  match signedWith? unsigned? text with
  | some value => some (.integer .int value)
  | none =>
    match unsigned? text with
    | some value => if value < UInt64.size then some (.integer .uint64 value) else none
    | none => none

/-- A date, or a date and a time with a `T` and an offset, or with blanks and none. -/
def timestamp? (text : Text) : Option Timestamp :=
  if (text.takeWhile Text.isAsciiDigit).length ≠ 4 then none
  else do
    let (date, rest) ← Timestamp.readDate? text
    match rest with
    | [] => some date
    | mark :: time =>
      if mark = 0x54 || mark = 0x74 then
        let (moment, rest) ← Timestamp.readTime? date time
        let offset ← Timestamp.readOffset? rest
        some { moment with offset }
      else if mark = 0x20 then
        let (moment, rest) ← Timestamp.readTime? date (time.dropWhile fun byte => byte = 0x20)
        if rest.isEmpty then some moment else none
      else none

def numberMeaning? (tag : Option Text) (text : Text) : Option (Text × Value) :=
  let time := if tag = none ∨ tag = some Tag.timestamp then timestamp? text else none
  match time with
  | some time => some (Tag.timestamp, .timestamp time)
  | none =>
    let plain := text.filter fun byte => byte ≠ 0x5F
    match wholeNumber? plain with
    | some value => some (Tag.integer, value)
    | none =>
      match Binary.readDouble? plain with
      | some value => some (Tag.float, .double value)
      | none => (prefixedSigned? plain).map fun value => (Tag.integer, .integer .int value)

/-- A number without its underscores, each of which must stand between two digits. -/
def ungrouped? : (afterDigit : Bool) → Text → Option Text
  | _, [] => some []
  | afterDigit, byte :: rest =>
    if byte = 0x5F then
      if afterDigit && rest.head?.any Text.isAsciiDigit then ungrouped? false rest else none
    else (ungrouped? (Text.isAsciiDigit byte) rest).map (byte :: ·)

def plainMeaning (tag : Option Text) (text : Text) : Text × Value :=
  let string := (Tag.string, Value.string text)
  match text with
  | [] => (wordMeaning? text).getD string
  | first :: _ =>
    if (utf8 "yYnNtTfFoO~").contains first then (wordMeaning? text).getD string
    else if first = 0x2E then
      (wordMeaning? text).getD <|
        match (ungrouped? false text).bind Binary.readDouble? with
        | some value => (Tag.float, .double value)
        | none => string
    else if first = 0x2B || first = 0x2D || Text.isAsciiDigit first then
      (wordMeaning? text).getD ((numberMeaning? tag text).getD string)
    else string

/-- The value of a scalar under a tag; none if the tag does not fit. Foreign tags fit any text. -/
def taggedMeaning? (tag : Text) (text : Text) : Option Value :=
  if tag = Tag.binary then (Base64.decode? text).map .string
  else if !Tag.ofLook.contains tag then some (.string text)
  else
    let (look, value) := plainMeaning (some tag) text
    if look = tag then some value
    else
      match value with
      | .integer .int number =>
        if tag = Tag.float then some (.double (Binary.ofInt .double number)) else none
      | _ => none

def scalarValue? (tag : Option Text) (style : ScalarStyle) (text : Text) : Option Value :=
  match tag with
  | some tag => taggedMeaning? tag text
  | none => if style = .plain then some (plainMeaning none text).2 else some (.string text)

def Node.isNull : Node → Bool
  | .scalar none style text _ => style = .plain && (plainMeaning none text).1 = Tag.null
  | .scalar tag _ _ _ => tag = some Tag.null
  | .sequence tag _ _ => tag = some Tag.null
  | .mapping tag _ _ => tag = some Tag.null
  | .alias .. => false
  | .enclosing .. => false

end EntitySchema.Yaml
