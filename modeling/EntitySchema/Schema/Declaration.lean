import EntitySchema.Directives
import EntitySchema.Expression.Error
import EntitySchema.Relation

/-!
The entries of a record by their role: the entry `$type` names the schema, other keys with a
dollar sign are directives, and the rest are relations or fields, told apart by the arrow.
-/

namespace EntitySchema

inductive Declaration where
  | field (name : Text) (expression : Text)
  | relation (name : Text) (expression : Text)
  | directive (name : Text) (value : Value)
  deriving Repr

namespace Declaration

def name : Declaration → Text
  | .field name _ => name
  | .relation name _ => name
  | .directive name _ => name

def ofDirective (name : Text) (value : Value) : Declaration :=
  if Key.isDirective name then .directive name value
  else .directive (directiveSign ++ name) value

def ofExpression (key expression : Text) : Declaration :=
  if Relation.isRelationText expression then .relation key expression else .field key expression

def ofEntry (key : Text) (value : Value) : Except ParseError Declaration :=
  if Key.isDirective key then .ok (.directive key value)
  else
    match value with
    | .string expression => .ok (ofExpression key expression)
    | _ => .error { cause := .expressionNotString value.typeName, field := key }

/-- The schema name and the declarations of a list of entries, after those already seen. -/
def classifyFrom (schemaName : Text) (done : List Declaration) :
    List (Text × Value) → Except ParseError (Text × List Declaration)
  | [] => .ok (schemaName, done.reverse)
  | (key, value) :: entries =>
    if key = Key.type then
      match value with
      | .string text => classifyFrom text done entries
      | _ => .error { cause := .nameNotString value.typeName, field := key }
    else
      match ofEntry key value with
      | .error error => .error error
      | .ok declaration => classifyFrom schemaName (declaration :: done) entries

def classify (record : Record) : Except ParseError (Text × List Declaration) :=
  classifyFrom [] [] record.toList

end Declaration

end EntitySchema
