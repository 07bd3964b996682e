import EntitySchema.Proofs.Checked.Capture
import EntitySchema.Proofs.Checked.Unquote
import EntitySchema.Proofs.Field.TypeMeaning

/-!
A field read from what its parser hands over, member by member. The parameters of a type are looked
up by number, a modifier is told by its first byte, and a default by the first of its members that
is filled, of which there has to be one.
-/

namespace EntitySchema.Checked

open Expression

def readParametric (name : Text) (index least greatest : Nat) (parameters : List Parameter) :
    Checked Fault TypeExpr :=
  if parameters.length < least then refuse ⟨index, .tooFewParameters name least⟩
  else if greatest < parameters.length then do
    let extra ← item parameters greatest
    refuse ⟨extra.index, .tooManyParameters name greatest⟩
  else do
    let values ← ofExcept (TypeExpr.readParameters name parameters)
    let first ← item values 0
    if name ≠ TypeName.decimal then
      if first < 1 then
        let parameter ← item parameters 0
        refuse ⟨parameter.index, .lengthNotPositive name first⟩
      else .ok (.parametric name none none (some first))
    else if first < 1 ∨ maxDecimalPrecision < first then
      let parameter ← item parameters 0
      refuse ⟨parameter.index, .precisionOutOfRange first⟩
    else if values.length = 2 then
      let scale ← item values 1
      if scale < 0 ∨ first < scale then
        let parameter ← item parameters 1
        refuse ⟨parameter.index, .scaleOutOfRange first scale⟩
      else .ok (.parametric name (some first) (some scale) none)
    else .ok (.parametric name (some first) none none)

mutual

def readType : TypeSyntax → Checked Fault TypeExpr
  | .bare index name =>
    match TypeName.canonical? name with
    | none => refuse ⟨index, .unknownType name⟩
    | some name =>
      match TypeName.parametricArity? name, TypeName.genericArity? name with
      | some (least, _), _ => refuse ⟨index, .tooFewParameters name least⟩
      | none, some wanted => refuse ⟨index, .wrongArgumentCount name wanted 0⟩
      | none, none => .ok (.primitive name)
  | .paren index name parameters =>
    match TypeName.canonical? name with
    | none => refuse ⟨index, .unknownType name⟩
    | some name =>
      match TypeName.parametricArity? name, TypeName.genericArity? name with
      | some (least, greatest), _ => readParametric name index least greatest parameters
      | none, some _ => refuse ⟨index, .parensOnGeneric name⟩
      | none, none => refuse ⟨index, .parensOnPrimitive name⟩
  | .angle index name arguments =>
    match TypeName.canonical? name with
    | none => refuse ⟨index, .unknownType name⟩
    | some name =>
      match TypeName.parametricArity? name, TypeName.genericArity? name with
      | some _, _ => refuse ⟨index, .anglesOnParametric name⟩
      | none, none => refuse ⟨index, .anglesOnPrimitive name⟩
      | none, some wanted =>
        if arguments.length ≠ wanted then
          refuse ⟨index, .wrongArgumentCount name wanted arguments.length⟩
        else if TypeName.nameTakers.contains name then do
          let names ← ofExcept (TypeExpr.ofNames name arguments)
          .ok (.generic name names)
        else do
          let exprs ← readTypes arguments
          .ok (.generic name exprs)

def readTypes : List TypeSyntax → Checked Fault (List TypeExpr)
  | [] => .ok []
  | argument :: arguments => do
    let expr ← readType argument
    let exprs ← readTypes arguments
    .ok (expr :: exprs)

end

def addFlags (field : Field) (first : Byte) : Field :=
  if first = 0x21 then { field with isRequired := true, isUnique := true }
  else if first = 0x3F then { field with isOptional := true }
  else if first = 0x23 then { field with isIndexed := true, isUnique := true }
  else field

def readSuffixes (field : Field) : List (Nat × SuffixCapture) → Checked Fault Field
  | [] => .ok field
  | (index, suffix) :: suffixes =>
    if suffix.array then
      if field.isArray then refuse ⟨index, .repeatedArray⟩
      else readSuffixes { field with isArray := true } suffixes
    else if suffix.modifier.isEmpty then readSuffixes field suffixes
    else do
      let first ← item suffix.modifier 0
      readSuffixes (addFlags field first) suffixes

def modifiersIn (suffixes : List (Nat × SuffixCapture)) : Text :=
  suffixes.flatMap fun (_, suffix) => if suffix.array then [] else suffix.modifier

def readDefault (index : Nat) (default : DefaultCapture) : Checked Fault DefaultValue :=
  match default.word, default.call, default.number, default.string with
  | some word, _, _, _ => ofExcept (DefaultValue.ofSyntax index (.word word))
  | none, some name, _, _ => .ok (.function name)
  | none, none, some number, _ => ofExcept (DefaultValue.ofSyntax index (.number number))
  | none, none, none, some string => do
    match ← unquote string with
    | some value => .ok (.string value)
    | none => refuse ⟨index, .unterminatedString string⟩
  | none, none, none, none =>
    if default.object then .ok .object
    else if default.array then .ok .array
    else .error .unreachable

def readField (parsed : FieldCapture) : Checked Fault Field := do
  let expr ← readType parsed.base
  let plain := { Field.ofType expr with modifier := modifiersIn parsed.suffixes }
  let field ← readSuffixes plain parsed.suffixes
  match parsed.default with
  | none => .ok field
  | some (index, default) =>
    let value ← readDefault index default
    .ok { field with default := some value }

theorem ofExcept_ite {ε α : Type} (condition : Prop) [Decidable condition]
    (first second : Except ε α) : ofExcept (if condition then first else second) =
      if condition then ofExcept first else ofExcept second := by
  split <;> rfl

theorem readParametric_sized {name : Text} (member : name ∈ TypeName.sized) (index : Nat)
    (parameters : List Parameter) :
    readParametric name index 1 1 parameters =
      ofExcept (TypeExpr.ofParameters name index 1 1 parameters) := by
  have notDecimal := (TypeName.parametricArity?_of_sized member).2
  match parameters with
  | [] => simp [readParametric, TypeExpr.ofParameters]
  | [first] =>
      cases value : readInteger? first.text with
      | none => simp [readParametric, TypeExpr.ofParameters, TypeExpr.readParameters, value]
      | some length =>
          simp [readParametric, TypeExpr.ofParameters, TypeExpr.readParameters, value, notDecimal,
            Except.map, item, TypeExpr.ofLength, ofExcept_ite]
  | first :: second :: others => simp [readParametric, TypeExpr.ofParameters, item]

theorem readParametric_decimal (index : Nat) (parameters : List Parameter) :
    readParametric TypeName.decimal index 1 2 parameters =
      ofExcept (TypeExpr.ofParameters TypeName.decimal index 1 2 parameters) := by
  match parameters with
  | [] => simp [readParametric, TypeExpr.ofParameters]
  | [first] =>
      cases value : readInteger? first.text with
      | none => simp [readParametric, TypeExpr.ofParameters, TypeExpr.readParameters, value]
      | some precision =>
          simp [readParametric, TypeExpr.ofParameters, TypeExpr.readParameters, value, Except.map,
            item, TypeExpr.ofPrecision, ofExcept_ite]
  | [first, second] =>
      cases value : readInteger? first.text with
      | none => simp [readParametric, TypeExpr.ofParameters, TypeExpr.readParameters, value]
      | some precision =>
          cases scaleValue : readInteger? second.text with
          | none =>
              simp [readParametric, TypeExpr.ofParameters, TypeExpr.readParameters, value,
                scaleValue, Except.map]
          | some scale =>
              simp [readParametric, TypeExpr.ofParameters, TypeExpr.readParameters, value,
                scaleValue, Except.map, item, TypeExpr.ofPrecision, ofExcept_ite]
  | first :: second :: third :: others => simp [readParametric, TypeExpr.ofParameters, item]

theorem readParametric_eq {name : Text} {least greatest : Nat}
    (arity : TypeName.parametricArity? name = some (least, greatest)) (index : Nat)
    (parameters : List Parameter) :
    readParametric name index least greatest parameters =
      ofExcept (TypeExpr.ofParameters name index least greatest parameters) := by
  obtain ⟨rfl, bounds⟩ | ⟨member, bounds⟩ := TypeName.parametricArity?_eq_some arity
  · obtain ⟨rfl, rfl⟩ := Prod.mk.inj bounds
    exact readParametric_decimal index parameters
  · obtain ⟨rfl, rfl⟩ := Prod.mk.inj bounds
    exact readParametric_sized member index parameters

mutual

theorem readType_eq (written : TypeSyntax) :
    readType written = ofExcept (TypeExpr.ofSyntax written) := by
  cases written with
  | bare index name =>
      rw [readType, TypeExpr.ofSyntax]
      cases TypeName.canonical? name with
      | none => rfl
      | some name =>
          dsimp only
          cases TypeName.parametricArity? name with
          | some bounds => rfl
          | none => cases TypeName.genericArity? name <;> rfl
  | paren index name parameters =>
      rw [readType, TypeExpr.ofSyntax]
      cases TypeName.canonical? name with
      | none => rfl
      | some name =>
          dsimp only
          cases arity : TypeName.parametricArity? name with
          | some bounds => exact readParametric_eq arity index parameters
          | none => cases TypeName.genericArity? name <;> rfl
  | angle index name arguments =>
      rw [readType, TypeExpr.ofSyntax]
      cases TypeName.canonical? name with
      | none => rfl
      | some name =>
          dsimp only
          cases TypeName.parametricArity? name with
          | some bounds => rfl
          | none =>
              cases TypeName.genericArity? name with
              | none => rfl
              | some wanted =>
                  dsimp only
                  rw [ofExcept_ite, ofExcept_ite, readTypes_eq arguments]
                  cases TypeExpr.ofNames name arguments <;>
                    cases TypeExpr.ofSyntaxes arguments <;> rfl

theorem readTypes_eq (written : List TypeSyntax) :
    readTypes written = ofExcept (TypeExpr.ofSyntaxes written) := by
  cases written with
  | nil => rw [readTypes, TypeExpr.ofSyntaxes, ofExcept_ok]
  | cons argument arguments =>
      rw [readTypes, TypeExpr.ofSyntaxes, readType_eq argument, readTypes_eq arguments]
      cases TypeExpr.ofSyntax argument with
      | error fault => rfl
      | ok expr => cases TypeExpr.ofSyntaxes arguments <;> rfl

end

theorem addModifier_cons (field : Field) (first : Byte) (rest : Text) :
    field.addModifier (first :: rest) = addFlags field first := by
  simp only [Field.addModifier, addFlags, List.head?_cons, Option.some.injEq]

theorem readSuffixes_eq (field : Field) (suffixes : List (Nat × Suffix)) :
    readSuffixes field (suffixes.map (Prod.map id Suffix.capture)) =
      ofExcept (field.addSuffixes suffixes) := by
  induction suffixes generalizing field with
  | nil => rfl
  | cons found suffixes ih =>
      obtain ⟨index, suffix⟩ := found
      cases suffix with
      | array =>
          rw [List.map_cons, Field.addSuffixes, ofExcept_ite, ← ih]
          rfl
      | modifier text =>
          rw [List.map_cons, Field.addSuffixes, ← ih]
          cases text with
          | nil => rfl
          | cons first rest =>
              rw [addModifier_cons]
              rfl

theorem modifiersIn_eq (suffixes : List (Nat × Suffix)) :
    modifiersIn (suffixes.map (Prod.map id Suffix.capture)) = Field.modifiersOf suffixes := by
  rw [modifiersIn, Field.modifiersOf, List.flatMap_map]
  congr 1
  funext found
  obtain ⟨index, suffix⟩ := found
  cases suffix <;> rfl

theorem readDefault_eq (index : Nat) (written : DefaultSyntax) :
    readDefault index written.capture = ofExcept (DefaultValue.ofSyntax index written) := by
  cases written with
  | string text =>
      simp only [readDefault, DefaultSyntax.capture, unquote_eq, ok_bind, DefaultValue.ofSyntax]
      cases DefaultValue.unquote? text <;> rfl
  | _ => rfl

theorem readField_eq (parsed : FieldSyntax) :
    readField parsed.capture = ofExcept (Field.ofSyntax parsed) := by
  obtain ⟨base, suffixes, default⟩ := parsed
  simp only [readField, FieldSyntax.capture, readType_eq, readSuffixes_eq, modifiersIn_eq,
    Field.ofSyntax]
  cases TypeExpr.ofSyntax base with
  | error fault => rfl
  | ok expr =>
      simp only [ofExcept_ok, bind, Except.bind]
      cases { Field.ofType expr with modifier := Field.modifiersOf suffixes }.addSuffixes
          suffixes with
      | error fault => rfl
      | ok field =>
          cases default with
          | none => rfl
          | some found =>
              obtain ⟨index, written⟩ := found
              simp only [ofExcept_ok, Option.map_some, Prod.map, id, readDefault_eq]
              cases DefaultValue.ofSyntax index written <;> rfl

end EntitySchema.Checked
