import EntitySchema.Expression.Grammar
import EntitySchema.Expression.Read

/-!
Relations between entities: `-> User.posts[]?`. The arrow says the direction and whether the link
is referential or fuzzy, the name after the dot is the inverse on the target.
-/

namespace EntitySchema

structure Relation where
  operator : Text
  target : Text
  inverse : Text := []
  isArray : Bool := false
  isOptional : Bool := false
  deriving DecidableEq, Repr

namespace Operator

def forward : Text := utf8 "->"

def fuzzyForward : Text := utf8 "~>"

def backward : Text := utf8 "<-"

def fuzzyBackward : Text := utf8 "<~"

def all : List Text := [forward, fuzzyForward, backward, fuzzyBackward]

def isValid (operator : Text) : Bool := all.contains operator

/-- Whether the link is semantic and not referential. -/
def isFuzzy (operator : Text) : Bool := operator = fuzzyForward || operator = fuzzyBackward

def isForward (operator : Text) : Bool := operator = forward || operator = fuzzyForward

end Operator

namespace Relation

def hasInverse (relation : Relation) : Bool := !relation.inverse.isEmpty

def isRelationText (text : Text) : Bool :=
  let trimmed := text.dropWhile fun byte =>
    byte = 0x20 || byte = 0x09 || byte = 0x0D || byte = 0x0A
  Operator.all.any fun operator => Text.startsWith trimmed operator

def render (relation : Relation) : Text :=
  relation.operator ++ utf8 " " ++ relation.target ++
    (if relation.hasInverse then utf8 "." ++ relation.inverse else []) ++
    (if relation.isArray then utf8 "[]" else []) ++
    (if relation.isOptional then utf8 "?" else [])

def ofSyntax (parsed : Expression.RelationSyntax) : Relation :=
  ⟨parsed.operator, parsed.target, parsed.inverse.getD [], parsed.isArray, parsed.isOptional⟩

def ofLexemes (lexemes : List Lexeme) : Except Fault Relation :=
  match lexemes with
  | [] => .error ⟨0, .missingOperator []⟩
  | first :: rest =>
    if first.kind ≠ .relationOp then .error ⟨0, .missingOperator first.text⟩
    else
      match rest with
      | [] => .error ⟨1, .missingTarget none⟩
      | target :: _ =>
        if target.isName then
          match Expression.Grammar.relation.parseAll lexemes with
          | .ok parsed => .ok (ofSyntax parsed)
          | .error failure => .error (failure.fault lexemes)
        else .error ⟨1, .missingTarget (some target.text)⟩

def parse (text : Text) : Except ParseError Relation :=
  Expression.read .emptyRelation ofLexemes text

end Relation

end EntitySchema
