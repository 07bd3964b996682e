import EntitySchema.Text.CodeRange
import EntitySchema.Text.Rune

/-!
White space in the sense of Unicode: the six ASCII spaces and controls, and the spaces of other
scripts. An expression of nothing else counts as missing.
-/

namespace EntitySchema.Text

/-- Code points above U+007F with the property White_Space. -/
def spaceRanges : List CodeRange :=
  [
   (0x85, 0x85), (0xA0, 0xA0), (0x1680, 0x1680), (0x2000, 0x200A), (0x2028, 0x2029),
    (0x202F, 0x202F), (0x205F, 0x205F), (0x3000, 0x3000)
  ]

def isSpace (char : Char) : Bool :=
  if char.toNat < 0x80 then char.toNat = 0x20 || (0x09 ≤ char.toNat && char.toNat ≤ 0x0D)
  else inRanges spaceRanges char.toNat

def isBlank (text : Text) : Bool := text.runes.all fun rune => isSpace rune.char

def trim (text : Text) : Text :=
  let space := fun rune : Rune => isSpace rune.char
  Rune.spell (((text.runes.dropWhile space).reverse.dropWhile space).reverse)

end EntitySchema.Text
