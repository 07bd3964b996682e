import EntitySchema.Text.Rune

/-!
The characters of a YAML stream, as they are fetched. A stream is fetched in pieces of a fixed
number of bytes, and a piece is delivered only if all its characters are well-formed and allowed;
what stands in front of a broken piece can be used without ever noticing it.
-/

namespace EntitySchema.Yaml

def isAllowed (char : Char) : Bool :=
  let code := char.toNat
  code = 0x09 || code = 0x0A || code = 0x0D || (0x20 ≤ code && code ≤ 0x7E) || code = 0x85 ||
    (0xA0 ≤ code && code ≤ 0xD7FF) || (0xE000 ≤ code && code ≤ 0xFFFD) || 0x10000 ≤ code

inductive Encoding where
  | utf8
  | utf16 (bigEndian : Bool)
  deriving DecidableEq, Repr

namespace Encoding

def ofMark : Text → Encoding × Nat
  | 0xFF :: 0xFE :: _ => (.utf16 false, 2)
  | 0xFE :: 0xFF :: _ => (.utf16 true, 2)
  | 0xEF :: 0xBB :: 0xBF :: _ => (.utf8, 3)
  | _ => (.utf8, 0)

end Encoding

inductive Decoded where
  | char (char : Char) (size : Nat)
  | incomplete
  | malformed

namespace Decoded

def ofCode (code size : Nat) : Decoded :=
  if code.isValidChar && isAllowed (Char.ofNat code) then .char (Char.ofNat code) size
  else .malformed

def utf8Size? (first : Byte) : Option Nat :=
  if first < 0x80 then some 1
  else if first < 0xC0 then none
  else if first < 0xE0 then some 2
  else if first < 0xF0 then some 3
  else if first < 0xF8 then some 4
  else none

def ofUtf8 (first : Byte) (rest : Text) : Decoded :=
  match utf8Size? first with
  | none => .malformed
  | some size =>
    if rest.length + 1 < size then .incomplete
    else
      let rune := Rune.leading first rest
      if rune.isMalformed then .malformed else ofCode rune.char.toNat size

def unit (bigEndian : Bool) (first second : Byte) : Nat :=
  if bigEndian then first.toNat * 256 + second.toNat else second.toNat * 256 + first.toNat

def ofUtf16 (bigEndian : Bool) : Text → Decoded
  | first :: second :: rest =>
    let high := unit bigEndian first second
    if 0xDC00 ≤ high && high < 0xE000 then .malformed
    else if 0xD800 ≤ high && high < 0xDC00 then
      match rest with
      | third :: fourth :: _ =>
        let low := unit bigEndian third fourth
        if 0xDC00 ≤ low && low < 0xE000 then
          ofCode (0x10000 + (high - 0xD800) * 0x400 + (low - 0xDC00)) 4
        else .malformed
      | _ => .incomplete
    else ofCode high 2
  | _ => .incomplete

def ofBytes (encoding : Encoding) (first : Byte) (rest : Text) : Decoded :=
  match encoding with
  | .utf8 => ofUtf8 first rest
  | .utf16 bigEndian => ofUtf16 bigEndian (first :: rest)

end Decoded

/--
The characters of some bytes, and the bytes of a last one that is not complete. There are none if
a character is malformed. The fuel bounds the number of characters.
-/
def decodePiece? (encoding : Encoding) : (fuel : Nat) → Text → Option (List Char × Text)
  | 0, bytes => some ([], bytes)
  | _ + 1, [] => some ([], [])
  | fuel + 1, first :: rest =>
    match Decoded.ofBytes encoding first rest with
    | .malformed => none
    | .incomplete => some ([], first :: rest)
    | .char char size =>
      (decodePiece? encoding fuel ((first :: rest).drop size)).map fun (chars, bytes) =>
        (char :: chars, bytes)

def pieceSize : Nat := 512

/--
The pieces of a text, the first of at most `size` bytes, and whether they are all of it. A
character that is cut off by the end of a piece belongs to the next one.
-/
def piecesFrom (encoding : Encoding) : (fuel size : Nat) → Text → List (List Char) × Bool
  | 0, _, _ => ([], false)
  | fuel + 1, size, text =>
    let fetched := text.take size
    match decodePiece? encoding fetched.length fetched with
    | none => ([], false)
    | some (chars, bytes) =>
      let later := text.drop size
      if later.isEmpty then ([chars], bytes.isEmpty)
      else
        let (pieces, isComplete) := piecesFrom encoding fuel pieceSize (bytes ++ later)
        (chars :: pieces, isComplete)

def piecesOf (text : Text) : List (List Char) × Bool :=
  let (encoding, markSize) := Encoding.ofMark text
  piecesFrom encoding (text.length + 1) (pieceSize - markSize) (text.drop markSize)

end EntitySchema.Yaml
