import EntitySchema.Text.Printable
import EntitySchema.Text.Rune

/-!
Text between double quotes for messages: what cannot be seen is written as an escape, so that the
quoted form is one line of visible characters, and malformed bytes stay recognisable.
-/

namespace EntitySchema.Text

def quotedRune (rune : Rune) : Text :=
  let code := rune.char.toNat
  if rune.isMalformed then utf8 "\\x" ++ hex 2 (rune.bytes.headD 0).toNat
  else if rune.char = '"' then utf8 "\\\""
  else if rune.char = '\\' then utf8 "\\\\"
  else if isPrintable rune.char then rune.bytes
  else match code with
    | 0x07 => utf8 "\\a"
    | 0x08 => utf8 "\\b"
    | 0x0C => utf8 "\\f"
    | 0x0A => utf8 "\\n"
    | 0x0D => utf8 "\\r"
    | 0x09 => utf8 "\\t"
    | 0x0B => utf8 "\\v"
    | _ =>
      if code < 0x20 || code = 0x7F then utf8 "\\x" ++ hex 2 code
      else if code < 0x10000 then utf8 "\\u" ++ hex 4 code
      else utf8 "\\U" ++ hex 8 code

def quoted (text : Text) : Text :=
  utf8 "\"" ++ text.runes.flatMap quotedRune ++ utf8 "\""

end EntitySchema.Text
