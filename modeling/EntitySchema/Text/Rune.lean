import EntitySchema.Text.Basic

/-!
The reading of bytes as characters. A rune is one character with the bytes it was read from; a
byte that starts no well-formed UTF-8 sequence is a rune of its own, read as U+FFFD. The bytes of
the runes of a text are the text, so nothing is lost on malformed input.
-/

namespace EntitySchema

structure Rune where
  char : Char
  bytes : Text
  deriving DecidableEq, Repr

namespace Rune

def replacement : Char := Char.ofNat 0xFFFD

def ofByte (byte : Byte) : Rune := ⟨Char.ofNat byte.toNat, [byte]⟩

def malformed (byte : Byte) : Rune := ⟨replacement, [byte]⟩

def ofChar (char : Char) : Rune := ⟨char, String.utf8EncodeChar char⟩

/-- A byte that was not readable, as opposed to a spelled-out U+FFFD. -/
def isMalformed (rune : Rune) : Bool := rune.char = replacement && rune.bytes.length = 1

def isContinuation (byte : Byte) : Bool := 0x80 ≤ byte && byte ≤ 0xBF

def assemble (lead : Nat) (tail : Text) : Nat :=
  tail.foldl (fun code byte => code * 64 + (byte.toNat - 0x80)) lead

/--
A sequence of one lead byte and `count` continuation bytes. Code points below `least` have a
shorter spelling and are refused, as are surrogates and values beyond U+10FFFF.
-/
def multibyte? (count least lead : Nat) (first : Byte) (rest : Text) : Option Rune :=
  let tail := rest.take count
  let code := assemble lead tail
  if tail.length = count ∧ tail.all isContinuation = true ∧ least ≤ code ∧ code.isValidChar then
    some ⟨Char.ofNat code, first :: tail⟩
  else
    none

def leading (first : Byte) (rest : Text) : Rune :=
  if first < 0x80 then ofByte first
  else if first < 0xC0 then malformed first
  else if first < 0xE0 then
    (multibyte? 1 0x80 (first.toNat - 0xC0) first rest).getD (malformed first)
  else if first < 0xF0 then
    (multibyte? 2 0x800 (first.toNat - 0xE0) first rest).getD (malformed first)
  else if first < 0xF8 then
    (multibyte? 3 0x10000 (first.toNat - 0xF0) first rest).getD (malformed first)
  else malformed first

def spell (runes : List Rune) : Text := runes.flatMap Rune.bytes

end Rune

namespace Text

def runesAfter : (skip : Nat) → Text → List Rune
  | _, [] => []
  | 0, first :: rest =>
    let rune := Rune.leading first rest
    rune :: runesAfter (rune.bytes.length - 1) rest
  | skip + 1, _ :: rest => runesAfter skip rest

def runes (text : Text) : List Rune := runesAfter 0 text

def ofChars (chars : List Char) : Text := chars.flatMap String.utf8EncodeChar

def isWellFormed (text : Text) : Bool := text.runes.all fun rune => !rune.isMalformed

end Text

end EntitySchema
