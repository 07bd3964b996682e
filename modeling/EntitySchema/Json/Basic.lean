import EntitySchema.Text.Rune

/-!
JSON documents: values that keep the order of object members and the spelling of numbers, and
their two written forms, compact and indented.
-/

namespace EntitySchema

inductive Json where
  | null
  | boolean (value : Bool)
  | number (text : Text)
  | string (text : Text)
  | array (items : List Json)
  | object (members : List (Text × Json))
  deriving Inhabited, Repr

namespace Json

/-- How one rune is written inside a JSON string; malformed bytes become U+FFFD. -/
def escapeRune (rune : Rune) : Text :=
  let code := rune.char.toNat
  if rune.isMalformed then Text.ofChars [Rune.replacement]
  else if rune.char = '"' then utf8 "\\\""
  else if rune.char = '\\' then utf8 "\\\\"
  else if code = 0x2028 || code = 0x2029 then utf8 "\\u" ++ Text.hex 4 code
  else if 0x20 ≤ code then rune.bytes
  else match code with
    | 0x08 => utf8 "\\b"
    | 0x0C => utf8 "\\f"
    | 0x0A => utf8 "\\n"
    | 0x0D => utf8 "\\r"
    | 0x09 => utf8 "\\t"
    | _ => utf8 "\\u" ++ Text.hex 4 code

def quote (text : Text) : Text := utf8 "\"" ++ text.runes.flatMap escapeRune ++ utf8 "\""

def ofBool (value : Bool) : Text := if value then utf8 "true" else utf8 "false"

mutual

def render : Json → Text
  | .null => utf8 "null"
  | .boolean value => ofBool value
  | .number text => text
  | .string text => quote text
  | .array items => utf8 "[" ++ Text.join (utf8 ",") (renderItems items) ++ utf8 "]"
  | .object members => utf8 "\x7b" ++ Text.join (utf8 ",") (renderMembers members) ++ utf8 "\x7d"

def renderItems : List Json → List Text
  | [] => []
  | item :: items => item.render :: renderItems items

def renderMembers : List (Text × Json) → List Text
  | [] => []
  | (key, value) :: members => (quote key ++ utf8 ":" ++ value.render) :: renderMembers members

end

def newLine (indent level : Nat) : Text := 0x0A :: Text.spaces (indent * level)

def block (indent level : Nat) (opening closing : Text) (entries : List Text) : Text :=
  if entries.isEmpty then opening ++ closing
  else
    opening ++ newLine indent (level + 1) ++
      Text.join (utf8 "," ++ newLine indent (level + 1)) entries ++
      newLine indent level ++ closing

mutual

def renderIndented (indent : Nat) (level : Nat) : Json → Text
  | .null => utf8 "null"
  | .boolean value => ofBool value
  | .number text => text
  | .string text => quote text
  | .array items =>
    block indent level (utf8 "[") (utf8 "]") (renderIndentedItems indent (level + 1) items)
  | .object members =>
    block indent level (utf8 "\x7b") (utf8 "\x7d")
      (renderIndentedMembers indent (level + 1) members)

def renderIndentedItems (indent : Nat) (level : Nat) : List Json → List Text
  | [] => []
  | item :: items =>
    item.renderIndented indent level :: renderIndentedItems indent level items

def renderIndentedMembers (indent : Nat) (level : Nat) : List (Text × Json) → List Text
  | [] => []
  | (key, value) :: members =>
    (quote key ++ utf8 ": " ++ value.renderIndented indent level) ::
      renderIndentedMembers indent level members

end

def member? (key : Text) : Json → Option Json
  | .object members => members.lookup key
  | _ => none

end Json

end EntitySchema
