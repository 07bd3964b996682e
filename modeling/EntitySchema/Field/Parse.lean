import EntitySchema.Field.Basic

/-!
Reading a field expression such as `decimal(10,2)! = 1.5`. The grammar decides the shape, and the
functions here decide whether a type takes the arguments it was given and what a default means.
-/

namespace EntitySchema

open Expression

def readInteger? (text : Text) : Option Int :=
  let negative := text.head? = some 0x2D
  let digits := if negative || text.head? = some 0x2B then text.drop 1 else text
  if digits.isEmpty || !digits.all Text.isAsciiDigit then none
  else
    let size : Int := Text.digitsValue digits
    let value := if negative then -size else size
    if Int64.minValue.toInt ≤ value ∧ value ≤ Int64.maxValue.toInt then some value else none

namespace TypeExpr

def readParameters (name : Text) : List Parameter → Except Fault (List Int)
  | [] => .ok []
  | parameter :: parameters =>
    match readInteger? parameter.text with
    | none => .error ⟨parameter.index, .parameterNotInteger name parameter.text⟩
    | some value => (readParameters name parameters).map (value :: ·)

def ofLength (name : Text) (index : Nat) (length : Int) : Except Fault TypeExpr :=
  if length < 1 then .error ⟨index, .lengthNotPositive name length⟩
  else .ok (.parametric name none none (some length))

def ofPrecision (name : Text) (index : Nat) (precision : Int) (scale : Option (Nat × Int)) :
    Except Fault TypeExpr :=
  if precision < 1 ∨ maxDecimalPrecision < precision then
    .error ⟨index, .precisionOutOfRange precision⟩
  else
    match scale with
    | none => .ok (.parametric name (some precision) none none)
    | some (scaleIndex, scale) =>
      if scale < 0 ∨ precision < scale then
        .error ⟨scaleIndex, .scaleOutOfRange precision scale⟩
      else .ok (.parametric name (some precision) (some scale) none)

def ofParameters (name : Text) (index least greatest : Nat) (parameters : List Parameter) :
    Except Fault TypeExpr :=
  if parameters.length < least then .error ⟨index, .tooFewParameters name least⟩
  else
    match parameters[greatest]? with
    | some extra => .error ⟨extra.index, .tooManyParameters name greatest⟩
    | none =>
      match readParameters name parameters with
      | .error fault => .error fault
      | .ok values =>
        match parameters, values with
        | first :: others, value :: values =>
          if name = TypeName.decimal then
            ofPrecision name first.index value
              ((others.head?.map Parameter.index).bind fun scaleIndex =>
                values.head?.map fun scale => (scaleIndex, scale))
          else ofLength name first.index value
        | _, _ => .error ⟨index, .tooFewParameters name least⟩

def ofName (name : Text) : TypeSyntax → Except Fault TypeExpr
  | .bare _ argument => .ok (.named argument)
  | .paren index .. => .error ⟨index, .bareNameExpected name⟩
  | .angle index .. => .error ⟨index, .bareNameExpected name⟩

def ofNames (name : Text) : List TypeSyntax → Except Fault (List TypeExpr)
  | [] => .ok []
  | argument :: arguments =>
    match ofName name argument with
    | .error fault => .error fault
    | .ok expr => (ofNames name arguments).map (expr :: ·)

mutual

def ofSyntax : TypeSyntax → Except Fault TypeExpr
  | .bare index name =>
    match TypeName.canonical? name with
    | none => .error ⟨index, .unknownType name⟩
    | some name =>
      match TypeName.parametricArity? name, TypeName.genericArity? name with
      | some (least, _), _ => .error ⟨index, .tooFewParameters name least⟩
      | none, some wanted => .error ⟨index, .wrongArgumentCount name wanted 0⟩
      | none, none => .ok (.primitive name)
  | .paren index name parameters =>
    match TypeName.canonical? name with
    | none => .error ⟨index, .unknownType name⟩
    | some name =>
      match TypeName.parametricArity? name, TypeName.genericArity? name with
      | some (least, greatest), _ => ofParameters name index least greatest parameters
      | none, some _ => .error ⟨index, .parensOnGeneric name⟩
      | none, none => .error ⟨index, .parensOnPrimitive name⟩
  | .angle index name arguments =>
    match TypeName.canonical? name with
    | none => .error ⟨index, .unknownType name⟩
    | some name =>
      match TypeName.parametricArity? name, TypeName.genericArity? name with
      | some _, _ => .error ⟨index, .anglesOnParametric name⟩
      | none, none => .error ⟨index, .anglesOnPrimitive name⟩
      | none, some wanted =>
        if arguments.length ≠ wanted then
          .error ⟨index, .wrongArgumentCount name wanted arguments.length⟩
        else if TypeName.nameTakers.contains name then
          (ofNames name arguments).map (.generic name)
        else (ofSyntaxes arguments).map (.generic name)

def ofSyntaxes : List TypeSyntax → Except Fault (List TypeExpr)
  | [] => .ok []
  | argument :: arguments =>
    match ofSyntax argument with
    | .error fault => .error fault
    | .ok expr => (ofSyntaxes arguments).map (expr :: ·)

end

end TypeExpr

namespace DefaultValue

def ofWord? (word : Text) : Option DefaultValue :=
  let lowered := word.lower
  if lowered = utf8 "null" then some .null
  else if lowered = utf8 "true" then some (.boolean true)
  else if lowered = utf8 "false" then some (.boolean false)
  else none

def ofSyntax (index : Nat) : DefaultSyntax → Except Fault DefaultValue
  | .word word =>
    match ofWord? word with
    | some value => .ok value
    | none => .error ⟨index, .unknownDefaultWord word⟩
  | .call name => .ok (.function name)
  | .number text =>
    match Binary.readDouble? text with
    | some value => .ok (.number value)
    | none => .error ⟨index, .defaultNumberTooLarge text⟩
  | .string text =>
    match unquote? text with
    | some value => .ok (.string value)
    | none => .error ⟨index, .unterminatedString text⟩
  | .object => .ok .object
  | .array => .ok .array

end DefaultValue

namespace Field

def ofType (expr : TypeExpr) : Field :=
  match expr with
  | .parametric name precision scale length =>
    { type := name, expr := some expr, precision := precision, scale := scale, length := length }
  | _ => { type := expr.baseName, expr := some expr }

def modifiersOf (suffixes : List (Nat × Suffix)) : Text :=
  suffixes.flatMap fun (_, suffix) => suffix.modifierText

def addModifier (field : Field) (modifier : Text) : Field :=
  if modifier.head? = some 0x21 then { field with isRequired := true, isUnique := true }
  else if modifier.head? = some 0x3F then { field with isOptional := true }
  else if modifier.head? = some 0x23 then { field with isIndexed := true, isUnique := true }
  else field

/-- Adds what suffixes imply, in order; an array suffix may stand only once. -/
def addSuffixes (field : Field) : List (Nat × Suffix) → Except Fault Field
  | [] => .ok field
  | (index, .array) :: suffixes =>
    if field.isArray then .error ⟨index, .repeatedArray⟩
    else addSuffixes { field with isArray := true } suffixes
  | (_, .modifier text) :: suffixes => addSuffixes (field.addModifier text) suffixes

def ofSyntax (parsed : FieldSyntax) : Except Fault Field := do
  let expr ← TypeExpr.ofSyntax parsed.base
  let plain := { ofType expr with modifier := modifiersOf parsed.suffixes }
  let field ← plain.addSuffixes parsed.suffixes
  match parsed.default with
  | none => return field
  | some (index, written) =>
    let value ← DefaultValue.ofSyntax index written
    return { field with default := some value }

def ofRelation (relation : Relation) : Field :=
  { type := TypeName.relation, isArray := relation.isArray, isOptional := relation.isOptional,
    relation := some relation }

/-- A grammar failure, blamed on the default when it stands at or behind the equals sign. -/
def faultOf (failure : Failure) (lexemes : List Lexeme) : Fault :=
  let fault := failure.fault lexemes
  match lexemes.findIdx? fun lexeme => lexeme.kind = .equals with
  | none => fault
  | some equals =>
    if equals ≤ failure.index then
      ⟨fault.index, .unexpectedDefault (Lexeme.describe lexemes[failure.index]?) failure.expected⟩
    else fault

def ofLexemes (lexemes : List Lexeme) : Except Fault Field :=
  match lexemes with
  | [] => .error ⟨0, .typeNameExpected []⟩
  | first :: _ =>
    if first.kind = .modifier then .error ⟨0, .modifierFirst first.text⟩
    else if first.kind = .relationOp then (Relation.ofLexemes lexemes).map ofRelation
    else if !first.isName then .error ⟨0, .typeNameExpected first.text⟩
    else if (TypeName.canonical? first.text).isNone then .error ⟨0, .unknownType first.text⟩
    else
      match Grammar.field.parseAll lexemes with
      | .ok parsed => ofSyntax parsed
      | .error failure => .error (faultOf failure lexemes)

def parse (text : Text) : Except ParseError Field :=
  Expression.read .emptyField ofLexemes text

end Field

end EntitySchema
