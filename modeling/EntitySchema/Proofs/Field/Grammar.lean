import EntitySchema.Field.Parse

/-!
The language of field expressions with its meaning: which lists of lexemes denote which type,
default, relation and field. Nothing here refers to the parser; a derivation says what is written
and what it stands for.
-/

namespace EntitySchema

open Expression

namespace TypeExpr

def precision? : TypeExpr → Option Int
  | .parametric _ precision _ _ => precision
  | _ => none

def scale? : TypeExpr → Option Int
  | .parametric _ _ scale _ => scale
  | _ => none

def length? : TypeExpr → Option Int
  | .parametric _ _ _ length => length
  | _ => none

end TypeExpr

namespace TypeName

def sized : List Text := [utf8 "varchar", utf8 "char", utf8 "fixed"]

end TypeName

namespace Lexeme

/-- A name that stands for the built-in type `base`, in any case and by any alias. -/
def Names (lexeme : Lexeme) (base : Text) : Prop :=
  lexeme.isName = true ∧ TypeName.canonical? lexeme.text = some base

end Lexeme

inductive TypeDenotes : List Lexeme → TypeExpr → Prop
  | primitive {name : Lexeme} {base : Text} : name.Names base →
      TypeName.isPrimitive base = true → TypeDenotes [name] (.primitive base)
  | decimal {name opening argument closing : Lexeme} {precision : Int} :
      name.Names TypeName.decimal → opening.kind = .lParen →
      readInteger? argument.text = some precision → 1 ≤ precision → precision ≤ 38 →
      closing.kind = .rParen →
      TypeDenotes [name, opening, argument, closing]
        (.parametric TypeName.decimal (some precision) none none)
  | scaled {name opening argument comma second closing : Lexeme} {precision scale : Int} :
      name.Names TypeName.decimal → opening.kind = .lParen →
      readInteger? argument.text = some precision → 1 ≤ precision → precision ≤ 38 →
      comma.kind = .comma → readInteger? second.text = some scale → 0 ≤ scale →
      scale ≤ precision → closing.kind = .rParen →
      TypeDenotes [name, opening, argument, comma, second, closing]
        (.parametric TypeName.decimal (some precision) (some scale) none)
  | sized {name opening argument closing : Lexeme} {base : Text} {length : Int} :
      name.Names base → base ∈ TypeName.sized → opening.kind = .lParen →
      readInteger? argument.text = some length → 1 ≤ length → closing.kind = .rParen →
      TypeDenotes [name, opening, argument, closing] (.parametric base none none (some length))
  | map {name opening comma closing : Lexeme} {left right : List Lexeme} {key value : TypeExpr} :
      name.Names (utf8 "map") → opening.kind = .lAngle → TypeDenotes left key →
      comma.kind = .comma → TypeDenotes right value → closing.kind = .rAngle →
      TypeDenotes (name :: opening :: (left ++ comma :: right ++ [closing]))
        (.generic (utf8 "map") [key, value])
  | list {name opening closing : Lexeme} {inner : List Lexeme} {item : TypeExpr} :
      name.Names TypeName.list → opening.kind = .lAngle → TypeDenotes inner item →
      closing.kind = .rAngle →
      TypeDenotes (name :: opening :: (inner ++ [closing])) (.generic TypeName.list [item])
  | named {name opening argument closing : Lexeme} {base : Text} :
      name.Names base → base ∈ TypeName.nameTakers → opening.kind = .lAngle →
      argument.isName = true → closing.kind = .rAngle →
      TypeDenotes [name, opening, argument, closing] (.generic base [.named argument.text])

inductive SuffixesDenote : List Lexeme → List Suffix → Prop
  | nil : SuffixesDenote [] []
  | array {opening closing : Lexeme} {rest : List Lexeme} {suffixes : List Suffix} :
      opening.kind = .lBracket → closing.kind = .rBracket → SuffixesDenote rest suffixes →
      SuffixesDenote (opening :: closing :: rest) (.array :: suffixes)
  | modifier {modifier : Lexeme} {rest : List Lexeme} {suffixes : List Suffix} :
      modifier.kind = .modifier → SuffixesDenote rest suffixes →
      SuffixesDenote (modifier :: rest) (.modifier modifier.text :: suffixes)

inductive DefaultDenotes : List Lexeme → DefaultValue → Prop
  | function {name opening closing : Lexeme} : name.isName = true → opening.kind = .lParen →
      closing.kind = .rParen → DefaultDenotes [name, opening, closing] (.function name.text)
  | null {word : Lexeme} : word.kind = .ident → word.text.lower = utf8 "null" →
      DefaultDenotes [word] .null
  | true {word : Lexeme} : word.kind = .ident → word.text.lower = utf8 "true" →
      DefaultDenotes [word] (.boolean .true)
  | false {word : Lexeme} : word.kind = .ident → word.text.lower = utf8 "false" →
      DefaultDenotes [word] (.boolean .false)
  | number {number : Lexeme} {value : Binary} : number.kind = .number →
      Binary.readDouble? number.text = some value → DefaultDenotes [number] (.number value)
  | string {string : Lexeme} {value : Text} : string.kind = .string →
      DefaultValue.unquote? string.text = some value → DefaultDenotes [string] (.string value)
  | object {opening closing : Lexeme} : opening.kind = .lBrace → closing.kind = .rBrace →
      DefaultDenotes [opening, closing] .object
  | array {opening closing : Lexeme} : opening.kind = .lBracket → closing.kind = .rBracket →
      DefaultDenotes [opening, closing] .array

inductive AssignmentDenotes : List Lexeme → Option DefaultValue → Prop
  | none : AssignmentDenotes [] none
  | some {equals : Lexeme} {rest : List Lexeme} {value : DefaultValue} :
      equals.kind = .equals → DefaultDenotes rest value →
      AssignmentDenotes (equals :: rest) (some value)

inductive InverseDenotes : List Lexeme → Text → Prop
  | none : InverseDenotes [] []
  | some {dot name : Lexeme} : dot.kind = .dot → name.isName = true →
      InverseDenotes [dot, name] name.text

inductive ArrayDenotes : List Lexeme → Bool → Prop
  | none : ArrayDenotes [] false
  | some {opening closing : Lexeme} : opening.kind = .lBracket → closing.kind = .rBracket →
      ArrayDenotes [opening, closing] true

inductive QuestionDenotes : List Lexeme → Bool → Prop
  | none : QuestionDenotes [] false
  | some {mark : Lexeme} : mark.kind = .modifier → mark.text = utf8 "?" →
      QuestionDenotes [mark] true

inductive RelationDenotes : List Lexeme → Relation → Prop
  | mk {operator target : Lexeme} {dotted brackets marks : List Lexeme} {inverse : Text}
      {isArray isOptional : Bool} : operator.kind = .relationOp → target.isName = true →
      InverseDenotes dotted inverse → ArrayDenotes brackets isArray →
      QuestionDenotes marks isOptional →
      RelationDenotes (operator :: target :: (dotted ++ brackets ++ marks))
        ⟨operator.text, target.text, inverse, isArray, isOptional⟩

namespace Field

def ofParts (expr : TypeExpr) (modifier : Text) (isArray : Bool)
    (default : Option DefaultValue) : Field :=
  { type := expr.baseName
    expr := some expr
    modifier := modifier
    isArray := isArray
    isOptional := modifier.contains 0x3F
    isRequired := modifier.contains 0x21
    isUnique := modifier.contains 0x21 || modifier.contains 0x23
    isIndexed := modifier.contains 0x23
    precision := expr.precision?
    scale := expr.scale?
    length := expr.length?
    default := default
    relation := none }

end Field

/-- Lexemes that denote a field: a relation, or a type with suffixes and perhaps a default. -/
inductive FieldDenotes : List Lexeme → Field → Prop
  | relation {lexemes : List Lexeme} {relation : Relation} : RelationDenotes lexemes relation →
      FieldDenotes lexemes
        { type := TypeName.relation, isArray := relation.isArray,
          isOptional := relation.isOptional, relation := some relation }
  | typed {base marks assigned : List Lexeme} {expr : TypeExpr} {suffixes : List Suffix}
      {default : Option DefaultValue} : TypeDenotes base expr → SuffixesDenote marks suffixes →
      suffixes.count .array ≤ 1 → AssignmentDenotes assigned default →
      FieldDenotes (base ++ marks ++ assigned)
        (Field.ofParts expr (suffixes.flatMap Suffix.modifierText) (suffixes.contains .array)
          default)

end EntitySchema
