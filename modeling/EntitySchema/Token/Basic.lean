import EntitySchema.Text.Basic

/-!
Tokens of field and relation expressions. A lexeme says what was read, a position says where it
stood; parsing looks at lexemes only.
-/

namespace EntitySchema

inductive TokenKind where
  | eof
  | ident
  | typeName
  | directive
  | number
  | string
  | modifier
  | relationOp
  | lBracket
  | rBracket
  | lBrace
  | rBrace
  | lParen
  | rParen
  | lAngle
  | rAngle
  | comma
  | colon
  | equals
  | pipe
  | dot
  | illegal
  deriving DecidableEq, Repr

namespace TokenKind

def all : List TokenKind :=
  [.eof, .ident, .typeName, .directive, .number, .string, .modifier, .relationOp, .lBracket,
    .rBracket, .lBrace, .rBrace, .lParen, .rParen, .lAngle, .rAngle, .comma, .colon, .equals,
    .pipe, .dot, .illegal]

def name : TokenKind → Text
  | .eof => utf8 "EOF"
  | .ident => utf8 "Ident"
  | .typeName => utf8 "TypeName"
  | .directive => utf8 "Directive"
  | .number => utf8 "Number"
  | .string => utf8 "String"
  | .modifier => utf8 "Modifier"
  | .relationOp => utf8 "RelationOp"
  | .lBracket => utf8 "LBracket"
  | .rBracket => utf8 "RBracket"
  | .lBrace => utf8 "LBrace"
  | .rBrace => utf8 "RBrace"
  | .lParen => utf8 "LParen"
  | .rParen => utf8 "RParen"
  | .lAngle => utf8 "LAngle"
  | .rAngle => utf8 "RAngle"
  | .comma => utf8 "Comma"
  | .colon => utf8 "Colon"
  | .equals => utf8 "Equals"
  | .pipe => utf8 "Pipe"
  | .dot => utf8 "Dot"
  | .illegal => utf8 "Illegal"

/-- Kinds are numbered downwards: -1 is the end of the text, and the others start at -3. -/
def code (kind : TokenKind) : Int :=
  match kind with
  | .eof => -1
  | _ => -(all.idxOf kind + 2 : Int)

def nameOfCode (code : Int) : Text :=
  match all.find? fun kind => kind.code == code with
  | some kind => kind.name
  | none => utf8 "Unknown"

end TokenKind

structure Lexeme where
  kind : TokenKind
  text : Text
  deriving DecidableEq, Repr

namespace Lexeme

def isName (lexeme : Lexeme) : Bool := lexeme.kind = .ident || lexeme.kind = .typeName

end Lexeme

/--
A place in an expression: line and column count from one, the column in characters and the offset
in bytes. All three are zero when the place is not known.
-/
structure Position where
  line : Nat
  column : Nat
  offset : Nat
  deriving DecidableEq, Repr

namespace Position

def unknown : Position := ⟨0, 0, 0⟩

def start : Position := ⟨1, 1, 0⟩

end Position

structure Token extends Lexeme where
  position : Position
  deriving DecidableEq, Repr

end EntitySchema
