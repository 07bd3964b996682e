/-!
Text is a sequence of bytes. Nothing here assumes that the bytes are well-formed UTF-8: schema
expressions, keys and file contents are arbitrary, and every offset counts bytes.
-/

namespace EntitySchema

abbrev Byte := UInt8

abbrev Text := List Byte

def utf8 (literal : String) : Text := literal.toByteArray.data.toList

namespace Text

def isAsciiDigit (byte : Byte) : Bool := 0x30 ≤ byte && byte ≤ 0x39

def splitOn (separator : Byte) : Text → List Text
  | [] => [[]]
  | byte :: rest =>
    if byte = separator then [] :: splitOn separator rest
    else match splitOn separator rest with
      | [] => [[byte]]
      | part :: parts => (byte :: part) :: parts

def join (separator : Text) : List Text → Text
  | [] => []
  | [text] => text
  | text :: texts => text ++ separator ++ join separator texts

/-- Bytewise order: the first difference decides, and a text precedes its extensions. -/
def compare : Text → Text → Ordering
  | [], [] => .eq
  | [], _ :: _ => .lt
  | _ :: _, [] => .gt
  | left :: lefts, right :: rights =>
    if left < right then .lt
    else if right < left then .gt
    else compare lefts rights

def le (left right : Text) : Bool := compare left right != .gt

def dropPrefix? : (start text : Text) → Option Text
  | [], text => some text
  | _ :: _, [] => none
  | expected :: start, byte :: text =>
    if expected = byte then dropPrefix? start text else none

def startsWith (text start : Text) : Bool := start.isPrefixOf text

def endsWith (text tail : Text) : Bool := tail.isSuffixOf text

def ofNat (number : Nat) : Text := (Nat.toDigits 10 number).map fun digit => digit.toNat.toUInt8

def ofInt (number : Int) : Text :=
  if number < 0 then 0x2D :: ofNat number.natAbs else ofNat number.natAbs

def digitsValue (digits : Text) : Nat :=
  digits.foldl (fun value digit => value * 10 + (digit.toNat - 0x30)) 0

def hexDigit (value : Nat) : Byte :=
  if value < 10 then (0x30 + value).toUInt8 else (0x57 + value).toUInt8

def upperHexDigit (value : Nat) : Byte :=
  if value < 10 then (0x30 + value).toUInt8 else (0x37 + value).toUInt8

def hexWith (digit : Nat → Byte) : (width value : Nat) → Text
  | 0, _ => []
  | width + 1, value => hexWith digit width (value / 16) ++ [digit (value % 16)]

def hex (width value : Nat) : Text := hexWith hexDigit width value

def upperHex (width value : Nat) : Text := hexWith upperHexDigit width value

def hexValue? (byte : Byte) : Option Nat :=
  if 0x30 ≤ byte && byte ≤ 0x39 then some (byte.toNat - 0x30)
  else if 0x61 ≤ byte && byte ≤ 0x66 then some (byte.toNat - 0x57)
  else if 0x41 ≤ byte && byte ≤ 0x46 then some (byte.toNat - 0x37)
  else none

def times (count : Nat) (text : Text) : Text := (List.replicate count text).flatten

def spaces (count : Nat) : Text := List.replicate count 0x20

def sort (texts : List Text) : List Text := texts.mergeSort le

end Text

end EntitySchema
