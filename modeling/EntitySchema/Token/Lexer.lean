import EntitySchema.Text.Letter
import EntitySchema.Text.Rune
import EntitySchema.Token.Basic
import EntitySchema.Token.Keyword

/-!
Splitting an expression into tokens. Every text can be split: a character that fits no rule is a
token of its own kind, and the list ends with exactly one end token. At each step the lexer
decides the kind of the next token and how many runes follow its first one, and takes them off
the front, so the tokens and the blanks between them make up the text.
-/

namespace EntitySchema

namespace Position

def advance (position : Position) (rune : Rune) : Position :=
  if rune.char = '\n' then ⟨position.line + 1, 1, position.offset + rune.bytes.length⟩
  else ⟨position.line, position.column + 1, position.offset + rune.bytes.length⟩

def after (position : Position) (runes : List Rune) : Position := runes.foldl advance position

end Position

namespace Lexer

def isBlank (rune : Rune) : Bool :=
  rune.char = ' ' || rune.char = '\t' || rune.char = '\n' || rune.char = '\r'

def isDigit (rune : Rune) : Bool := rune.char.isDigit

def startsName (rune : Rune) : Bool := rune.char = '_' || Text.isLetter rune.char

def continuesName (rune : Rune) : Bool :=
  rune.char = '_' || Text.isLetter rune.char || Text.isDecimalDigit rune.char

def nextIs (test : Rune → Bool) : List Rune → Bool
  | [] => false
  | rune :: _ => test rune

/--
How many runes belong to a quoted string after its opening quote. A backslash takes the next rune
with it; without a closing quote the string runs to the end.
-/
def stringSize (quote : Char) : List Rune → Nat
  | [] => 0
  | rune :: rest =>
    if rune.char = '\\' then
      match rest with
      | [] => 1
      | _ :: rest => stringSize quote rest + 2
    else if rune.char = quote then 1
    else stringSize quote rest + 1

def fractionSize : List Rune → Nat
  | [] => 0
  | rune :: rest =>
    if rune.char = '.' && nextIs isDigit rest then (rest.takeWhile isDigit).length + 1 else 0

def numberSize (rest : List Rune) : Nat :=
  (rest.takeWhile isDigit).length + fractionSize (rest.dropWhile isDigit)

def isArrow (first second : Char) : Bool :=
  first = '-' && second = '>' || first = '~' && second = '>' ||
    first = '<' && second = '-' || first = '<' && second = '~'

def charKind (char : Char) : TokenKind :=
  if char = '!' || char = '?' || char = '#' then .modifier
  else if char = '[' then .lBracket
  else if char = ']' then .rBracket
  else if char = Char.ofNat 0x7B then .lBrace
  else if char = Char.ofNat 0x7D then .rBrace
  else if char = '(' then .lParen
  else if char = ')' then .rParen
  else if char = '<' then .lAngle
  else if char = '>' then .rAngle
  else if char = ',' then .comma
  else if char = ':' then .colon
  else if char = '=' then .equals
  else if char = '|' then .pipe
  else if char = '.' then .dot
  else .illegal

def nameKind (runes : List Rune) : TokenKind :=
  if TypeName.isKeyword (Rune.spell runes) then .typeName else .ident

/--
The kind of the token that starts with the rune `first`, and how many runes of `rest` belong to
it. The text must not start with a blank.
-/
def measure (first : Rune) (rest : List Rune) : TokenKind × Nat :=
  if first.char = '"' || first.char = '\'' then (.string, stringSize first.char rest)
  else if isDigit first || (first.char = '-' && nextIs isDigit rest) then
    (.number, numberSize rest)
  else if first.char = '$' && nextIs startsName rest then
    (.directive, (rest.takeWhile continuesName).length)
  else if startsName first then
    (nameKind (first :: rest.takeWhile continuesName), (rest.takeWhile continuesName).length)
  else if nextIs (fun second => isArrow first.char second.char) rest then (.relationOp, 1)
  else (charKind first.char, 0)

def tokensFrom (position : Position) (runes : List Rune) : List Token :=
  let start := position.after (runes.takeWhile isBlank)
  match _shape : runes.dropWhile isBlank with
  | [] => [⟨⟨.eof, []⟩, start⟩]
  | first :: rest =>
    let (kind, size) := measure first rest
    let taken := first :: rest.take size
    ⟨⟨kind, Rune.spell taken⟩, start⟩ :: tokensFrom (start.after taken) (rest.drop size)
termination_by runes.length
decreasing_by
  have shorter : (runes.dropWhile isBlank).length ≤ runes.length :=
    (List.dropWhile_suffix isBlank).length_le
  rw [_shape] at shorter
  simp only [List.length_cons, List.length_drop] at shorter ⊢
  omega

end Lexer

def tokenize (text : Text) : List Token := Lexer.tokensFrom Position.start text.runes

end EntitySchema
