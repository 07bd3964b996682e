import EntitySchema.Analysis.Diagnostic

/-!
The rules of the analysis. A rule looks at all inputs and reports what it finds, independently of
the other rules.
-/

namespace EntitySchema

namespace AnalysisInput

/-- The first input with a given schema name; a schema without a name is never found. -/
def lookup? (inputs : List AnalysisInput) (name : Text) : Option AnalysisInput :=
  if name.isEmpty then none else inputs.find? fun input => input.schema.name = name

end AnalysisInput

structure Rule where
  name : Text
  severity : Severity
  run : List AnalysisInput → List Diagnostic

namespace Rule

open Diagnostic AnalysisInput

def perInput (check : AnalysisInput → List Diagnostic) (inputs : List AnalysisInput) :
    List Diagnostic := inputs.flatMap check

def perRelation (check : AnalysisInput → Text → Relation → Option Diagnostic)
    (inputs : List AnalysisInput) : List Diagnostic :=
  perInput (fun input => input.schema.relations.toList.filterMap fun (name, relation) =>
    check input name relation) inputs

def duplicatesFrom (seen : List AnalysisInput) : List AnalysisInput →
    List (AnalysisInput × AnalysisInput)
  | [] => []
  | input :: inputs =>
    match lookup? seen.reverse input.schema.name with
    | some first => (input, first) :: duplicatesFrom (input :: seen) inputs
    | none => duplicatesFrom (input :: seen) inputs

def duplicateSchema : Rule where
  name := utf8 "duplicate-schema"
  severity := .error
  run := fun inputs => (duplicatesFrom [] inputs).map fun (input, first) =>
    report input [] .error (utf8 "duplicate-schema")
      (utf8 "schema " ++ input.schema.name ++ utf8 " is already declared in " ++ first.path)

def unknownRelationTarget : Rule where
  name := utf8 "unknown-relation-target"
  severity := .error
  run := fun inputs => perRelation (fun input name relation =>
    match lookup? inputs relation.target with
    | some _ => none
    | none => some <| report input name .error (utf8 "unknown-relation-target")
        (utf8 "relation " ++ name ++ utf8 " targets undeclared schema " ++ relation.target))
    inputs

def inverseProblem? (source : Schema) (relation : Relation) (target : Schema) : Option Text :=
  let inverse := utf8 "inverse " ++ relation.target ++ utf8 "." ++ relation.inverse
  if target.fields.contains relation.inverse then
    some (inverse ++ utf8 " is a field, not a relation")
  else
    match target.relations.get? relation.inverse with
    | none => some (inverse ++ utf8 " is not declared")
    | some back =>
      if back.target = source.name then none
      else some (inverse ++ utf8 " targets " ++ back.target ++ utf8 ", not " ++ source.name)

def inverseMismatch : Rule where
  name := utf8 "inverse-mismatch"
  severity := .error
  run := fun inputs => perRelation (fun input name relation =>
    if relation.hasInverse then
      match lookup? inputs relation.target with
      | none => none
      | some target =>
        (inverseProblem? input.schema relation target.schema).map
          (report input name .error (utf8 "inverse-mismatch"))
    else none) inputs

def directiveNames (directives : Directives) : List (Text × Text) :=
  directives.partitionBy.map (Key.partitionBy, ·) ++
  directives.indexes.flatMap (fun index => index.fields.map (Key.index, ·)) ++
  directives.fullText.map (Key.fullText, ·) ++
  directives.vectors.map (fun vector => (Key.vector, vector.field))

def declares (schema : Schema) (name : Text) : Bool :=
  schema.fields.contains name || schema.relations.contains name

def unknownDirectiveField : Rule where
  name := utf8 "unknown-directive-field"
  severity := .error
  run := perInput fun input =>
    (directiveNames input.schema.directives).filterMap fun (key, name) =>
      if declares input.schema name then none
      else some <| report input key .error (utf8 "unknown-directive-field")
        (key ++ utf8 " names undeclared field " ++ name)

def unnamedSchema : Rule where
  name := utf8 "unnamed-schema"
  severity := .warning
  run := perInput fun input =>
    if input.schema.name.isEmpty then
      [report input [] .warning (utf8 "unnamed-schema") (utf8 "schema has no " ++ Key.type)]
    else []

def hasForwardTo (schema : Schema) (target : Text) (isFuzzy : Bool) : Bool :=
  schema.relations.toList.any fun (_, relation) =>
    Operator.isForward relation.operator && Operator.isFuzzy relation.operator == isFuzzy &&
      relation.target = target

def forwardOf (operator : Text) : Text :=
  if Operator.isFuzzy operator then Operator.fuzzyForward else Operator.forward

def unmatchedBackwardRelation : Rule where
  name := utf8 "unmatched-backward-relation"
  severity := .warning
  run := fun inputs => perRelation (fun input name relation =>
    if Operator.isForward relation.operator || relation.hasInverse then none
    else
      match lookup? inputs relation.target with
      | none => none
      | some target =>
        if hasForwardTo target.schema input.schema.name (Operator.isFuzzy relation.operator) then
          none
        else some <| report input name .warning (utf8 "unmatched-backward-relation")
          (relation.target ++ utf8 " has no " ++ forwardOf relation.operator ++
            utf8 " relation to " ++ input.schema.name)) inputs

def conflictingModifiers : Rule where
  name := utf8 "conflicting-modifiers"
  severity := .warning
  run := perInput fun input => input.schema.fields.toList.filterMap fun (name, field) =>
    if field.isRequired && field.isOptional then
      some <| report input name .warning (utf8 "conflicting-modifiers")
        (utf8 "field " ++ name ++ utf8 " is both required and optional (" ++
          field.modifier.quoted ++ utf8 ")")
    else none

def isFloat (name : Text) : Bool := name = TypeName.float || name = TypeName.double

def isFloatVector (field : Field) : Bool :=
  if field.isArray then isFloat field.type
  else
    match field.expr with
    | some (.generic name (argument :: _)) => name = TypeName.list && isFloat argument.baseName
    | _ => false

def vectorFieldType : Rule where
  name := utf8 "vector-field-type"
  severity := .warning
  run := perInput fun input => input.schema.directives.vectors.filterMap fun vector =>
    match input.schema.fields.get? vector.field with
    | none => none
    | some field =>
      if isFloatVector field then none
      else some <| report input Key.vector .warning (utf8 "vector-field-type")
        (utf8 "vector field " ++ vector.field ++ utf8 " should be float[] or list<float>, got " ++
          field.render)

def vectorDimensions : Rule where
  name := utf8 "vector-dimensions"
  severity := .warning
  run := perInput fun input => input.schema.directives.vectors.filterMap fun vector =>
    if vector.dimensions < 1 then
      some <| report input Key.vector .warning (utf8 "vector-dimensions")
        (utf8 "vector field " ++ vector.field ++ utf8 " has " ++ Text.ofInt vector.dimensions ++
          utf8 " dimensions")
    else none

def fullTextFieldType : Rule where
  name := utf8 "fts-field-type"
  severity := .warning
  run := perInput fun input => input.schema.directives.fullText.filterMap fun name =>
    match input.schema.fields.get? name with
    | none => none
    | some field =>
      if field.type = TypeName.string || field.type = TypeName.text then none
      else some <| report input Key.fullText .warning (utf8 "fts-field-type")
        (utf8 "full-text field " ++ name ++ utf8 " should be string or text, got " ++ field.render)

def emptyIndex : Rule where
  name := utf8 "empty-index"
  severity := .warning
  run := perInput fun input => input.schema.directives.indexes.zipIdx.filterMap
    fun (index, number) =>
      if index.fields.isEmpty then
        some <| report input Key.index .warning (utf8 "empty-index")
          (utf8 "index " ++ Text.ofNat number ++ utf8 " names no fields")
      else none

def all : List Rule :=
  [duplicateSchema, unknownRelationTarget, inverseMismatch, unknownDirectiveField, unnamedSchema,
    unmatchedBackwardRelation, conflictingModifiers, vectorFieldType, vectorDimensions,
    fullTextFieldType, emptyIndex]

def named (names : List Text) : List Rule :=
  names.filterMap fun name => all.find? fun rule => rule.name = name

end Rule

def analyzeWith (rules : List Rule) (inputs : List AnalysisInput) : List Diagnostic :=
  (rules.flatMap fun rule => rule.run inputs).mergeSort Diagnostic.le

def analyze (inputs : List AnalysisInput) : List Diagnostic := analyzeWith Rule.all inputs

def hasErrors (diagnostics : List Diagnostic) : Bool :=
  diagnostics.any fun diagnostic => diagnostic.severity = .error

end EntitySchema
