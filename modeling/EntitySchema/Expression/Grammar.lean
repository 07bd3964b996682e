import EntitySchema.Expression.Parser

/-!
The grammar of expressions. A field is a type, then array suffixes and modifiers in any order,
then an optional default; a relation is an arrow, a target with an optional inverse, and the
marks for many and for optional. Which arguments a type may have is not decided here.
-/

namespace EntitySchema.Expression

structure Parameter where
  index : Nat
  text : Text
  deriving DecidableEq, Repr

inductive TypeSyntax where
  | bare (index : Nat) (name : Text)
  | paren (index : Nat) (name : Text) (parameters : List Parameter)
  | angle (index : Nat) (name : Text) (arguments : List TypeSyntax)
  deriving Repr

inductive Suffix where
  | array
  | modifier (text : Text)
  deriving DecidableEq, Repr

def Suffix.modifierText : Suffix → Text
  | .array => []
  | .modifier text => text

inductive DefaultSyntax where
  | call (name : Text)
  | word (text : Text)
  | number (text : Text)
  | string (text : Text)
  | object
  | array
  deriving DecidableEq, Repr

structure FieldSyntax where
  base : TypeSyntax
  suffixes : List (Nat × Suffix)
  default : Option (Nat × DefaultSyntax)
  deriving Repr

structure RelationSyntax where
  operator : Text
  target : Text
  inverse : Option Text
  isArray : Bool
  isOptional : Bool
  deriving DecidableEq, Repr

namespace Grammar

open EntitySchema.Expression.Parser

def name : Parser Lexeme := lexeme Lexeme.isName

/-- A number, a name or a string between parentheses; what it means is decided later. -/
def parameter : Parser Parameter :=
  node <| map (fun found => ⟨found.1, found.2.text⟩) <| located <| lexeme fun candidate =>
    candidate.kind = .number || candidate.kind = .ident || candidate.kind = .typeName ||
      candidate.kind = .string

def separated {α : Type} (item : Parser α) (itemName : Text) : Parser (List α) :=
  map (fun found => match found with
    | none => []
    | some (first, others) => first :: others) <|
  optional <| andThen item <|
  many <| map Prod.snd <| followedBy (ofKind .comma) itemName item

def bracketed {α : Type} (opening : TokenKind) (item : Parser α) (itemName : Text)
    (closing : TokenKind) (closingName : Text) : Parser (List α) :=
  map (fun found => found.2.1) <|
  andThen (ofKind opening) <| followedBy (separated item itemName) closingName (ofKind closing)

inductive Arguments where
  | parameters (list : List Parameter)
  | types (list : List TypeSyntax)

def assemble (index : Nat) (name : Text) : Option Arguments → TypeSyntax
  | none => .bare index name
  | some (.parameters list) => .paren index name list
  | some (.types list) => .angle index name list

def typeUpTo : (depth : Nat) → Parser TypeSyntax
  | 0 => fun _ => .unmatched
  | depth + 1 =>
    node <| map (fun found => assemble found.1 found.2.1.text found.2.2) <| located <|
    andThen name <| optional <| firstOf
      [map .parameters <| bracketed .lParen parameter (utf8 "ParamArg") .rParen (utf8 "\")\""),
        map .types <|
          bracketed .lAngle (typeUpTo depth) (utf8 "TypeExpr") .rAngle (utf8 "\">\"")]

/-- A type; each level of nesting takes a lexeme, so their number is a bound. -/
def type : Parser TypeSyntax := fun cursor => typeUpTo (cursor.rest.length + 1) cursor

def arraySuffix : Parser Unit :=
  map (fun _ => ()) <| followedBy (ofKind .lBracket) (utf8 "\"]\"") (ofKind .rBracket)

def suffix : Parser (Nat × Suffix) :=
  node <| located <| firstOf
    [map (fun _ => .array) arraySuffix,
      map (fun found => .modifier found.text) (ofKind .modifier)]

def default : Parser (Nat × DefaultSyntax) :=
  node <| located <| firstOf
    [map (fun found => .call found.1.1.text) <|
        followedBy (followedBy name (utf8 "\"(\" \")\"") (ofKind .lParen)) (utf8 "\")\"")
          (ofKind .rParen),
      map (fun found => .word found.text) (ofKind .ident),
      map (fun found => .number found.text) (ofKind .number),
      map (fun found => .string found.text) (ofKind .string),
      map (fun _ => .object) <|
        followedBy (ofKind .lBrace) (utf8 "\"\x7d\"") (ofKind .rBrace),
      map (fun _ => .array) arraySuffix]

def field : Parser FieldSyntax :=
  node <| map (fun found => ⟨found.1, found.2.1, found.2.2⟩) <|
  andThen type <| andThen (many suffix) <| optional <| map Prod.snd <|
  followedBy (ofKind .equals) (utf8 "DefaultExpr") default

def questionMark : Parser Lexeme :=
  lexeme fun candidate => candidate.kind = .modifier && candidate.text = utf8 "?"

def relation : Parser RelationSyntax :=
  node <| map (fun found =>
    ⟨found.1.text, found.2.1.text, found.2.2.1.map Lexeme.text, found.2.2.2.1.isSome,
      found.2.2.2.2.isSome⟩) <|
  followedBy (ofKind .relationOp) (utf8 "(<ident> | <typename>)") <| andThen name <|
  andThen (optional <| map Prod.snd <|
    followedBy (ofKind .dot) (utf8 "(<ident> | <typename>)") name) <|
  andThen (optional arraySuffix) <| optional questionMark

end Grammar

end EntitySchema.Expression
