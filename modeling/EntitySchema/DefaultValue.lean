import EntitySchema.Number.Decimal
import EntitySchema.Text.Basic

/-!
Default values of fields, and the quoted strings they are written with.
-/

namespace EntitySchema

inductive DefaultValue where
  | null
  | boolean (value : Bool)
  | number (value : Binary)
  | string (text : Text)
  | function (name : Text)
  | object
  | array
  | unknown
  deriving DecidableEq, Repr

namespace DefaultValue

def kindNames : List Text :=
  [utf8 "null", utf8 "boolean", utf8 "number", utf8 "string", utf8 "function", utf8 "object",
    utf8 "array"]

def kindNameOf (number : Int) : Text :=
  if 1 ≤ number then kindNames.getD (number - 1).toNat [] else []

def kindNumber : DefaultValue → Int
  | .null => 1
  | .boolean _ => 2
  | .number _ => 3
  | .string _ => 4
  | .function _ => 5
  | .object => 6
  | .array => 7
  | .unknown => 0

def kindName (value : DefaultValue) : Text := kindNameOf value.kindNumber

def quoteByte (byte : Byte) : Text :=
  if byte = 0x5C || byte = 0x22 then [0x5C, byte]
  else if byte = 0x0A then utf8 "\\n"
  else if byte = 0x09 then utf8 "\\t"
  else [byte]

def quoteString (text : Text) : Text := utf8 "\"" ++ text.flatMap quoteByte ++ utf8 "\""

def resolveEscapes : Text → Text
  | [] => []
  | [byte] => [byte]
  | 0x5C :: next :: rest =>
    if next = 0x27 || next = 0x22 || next = 0x5C then next :: resolveEscapes rest
    else if next = 0x6E then 0x0A :: resolveEscapes rest
    else if next = 0x74 then 0x09 :: resolveEscapes rest
    else 0x5C :: next :: resolveEscapes rest
  | byte :: rest => byte :: resolveEscapes rest

/--
What a quoted string denotes; none if its closing quote is missing. A closing quote behind an odd
run of backslashes is escaped and does not close the string.
-/
def unquote? (text : Text) : Option Text :=
  match text with
  | [] | [_] => none
  | quote :: rest =>
    let body := rest.dropLast
    let backslashes := (body.reverse.takeWhile fun byte => byte = 0x5C).length
    if rest.getLast? = some quote ∧ backslashes % 2 = 0 then some (resolveEscapes body) else none

def render : DefaultValue → Text
  | .null => utf8 "null"
  | .boolean true => utf8 "true"
  | .boolean false => utf8 "false"
  | .number value => value.render .double .positional
  | .string text => quoteString text
  | .function name => name ++ utf8 "()"
  | .object => utf8 "\x7b\x7d"
  | .array => utf8 "[]"
  | .unknown => []

end DefaultValue

end EntitySchema
