import EntitySchema.Text.Basic

/-!
Bytes as printable text: three bytes are written as four characters of an alphabet of 64, and a
shorter last group is filled up with equals signs.
-/

namespace EntitySchema

namespace Base64

def digit (value : Nat) : Byte :=
  if value < 26 then (0x41 + value).toUInt8
  else if value < 52 then (0x61 + (value - 26)).toUInt8
  else if value < 62 then (0x30 + (value - 52)).toUInt8
  else if value = 62 then 0x2B
  else 0x2F

def encode : Text → Text
  | first :: second :: third :: rest =>
    let group := first.toNat * 65536 + second.toNat * 256 + third.toNat
    [digit (group / 262144), digit (group / 4096 % 64), digit (group / 64 % 64),
      digit (group % 64)] ++ encode rest
  | [first, second] =>
    let group := first.toNat * 1024 + second.toNat * 4
    [digit (group / 4096), digit (group / 64 % 64), digit (group % 64), 0x3D]
  | [first] =>
    let group := first.toNat * 16
    [digit (group / 64), digit (group % 64), 0x3D, 0x3D]
  | [] => []

def value? (byte : Byte) : Option Nat :=
  if 0x41 ≤ byte && byte ≤ 0x5A then some (byte.toNat - 0x41)
  else if 0x61 ≤ byte && byte ≤ 0x7A then some (byte.toNat - 0x61 + 26)
  else if 0x30 ≤ byte && byte ≤ 0x39 then some (byte.toNat - 0x30 + 52)
  else if byte = 0x2B then some 62
  else if byte = 0x2F then some 63
  else none

def decodeGroups? : Text → Option Text
  | [] => some []
  | first :: second :: third :: fourth :: rest => do
    let high ← value? first
    let next ← value? second
    let one := (high * 4 + next / 16).toUInt8
    if fourth = 0x3D then
      if !rest.isEmpty then none
      else if third = 0x3D then some [one]
      else
        let low ← value? third
        some [one, (next % 16 * 16 + low / 4).toUInt8]
    else
      let low ← value? third
      let last ← value? fourth
      let others ← decodeGroups? rest
      some (one :: (next % 16 * 16 + low / 4).toUInt8 :: (low % 4 * 64 + last).toUInt8 :: others)
  | _ => none

/-- The bytes that a text stands for; line breaks in it do not count. -/
def decode? (text : Text) : Option Text :=
  decodeGroups? (text.filter fun byte => byte ≠ 0x0A && byte ≠ 0x0D)

def lineWidth : Nat := 70

def breakLines : (fuel : Nat) → Text → Text
  | 0, text => text
  | fuel + 1, text =>
    if text.isEmpty then []
    else text.take lineWidth ++ utf8 "\n" ++ breakLines fuel (text.drop lineWidth)

def encodeLines (bytes : Text) : Text :=
  let encoded := encode bytes
  if encoded.length < lineWidth then encoded else breakLines encoded.length encoded

end Base64

end EntitySchema
