import EntitySchema.Field.Parse
import EntitySchema.Schema.Declaration

/-!
Schemas: the fields, relations and directives of one entity type, assembled from a record or from
explicit declarations. The first declaration that cannot be read stops the assembly, and the
error names its key.
-/

namespace EntitySchema

structure Schema where
  name : Text := []
  version : Int := 1
  fields : OrderedMap Field := {}
  relations : OrderedMap Relation := {}
  directives : Directives := {}
  createdAt : Timestamp := Timestamp.zero
  updatedAt : Timestamp := Timestamp.zero
  deriving Repr

namespace Schema

structure Assembly where
  seen : List Text := []
  fields : OrderedMap Field := {}
  relations : OrderedMap Relation := {}
  directives : Record := {}

namespace Assembly

/-- Stores one declaration, whose name must be new. -/
def add (assembly : Assembly) (declaration : Declaration) : Except ParseError Assembly :=
  let key := declaration.name
  if assembly.seen.contains key then .error { cause := .repeatedDeclaration, field := key }
  else
    let assembly := { assembly with seen := key :: assembly.seen }
    match declaration with
    | .directive name value =>
      .ok { assembly with directives := assembly.directives.set name value }
    | .relation name expression =>
      match Relation.parse expression with
      | .ok relation => .ok { assembly with relations := assembly.relations.set name relation }
      | .error error => .error (error.withField name)
    | .field name expression =>
      match Field.parse expression with
      | .ok field => .ok { assembly with fields := assembly.fields.set name field }
      | .error error => .error (error.withField name)

def addAll (assembly : Assembly) : List Declaration → Except ParseError Assembly
  | [] => .ok assembly
  | declaration :: declarations =>
    match assembly.add declaration with
    | .error error => .error error
    | .ok assembly => assembly.addAll declarations

end Assembly

def ofDeclarations (now : Timestamp) (name : Text) (declarations : List Declaration) :
    Except ParseError Schema :=
  match Assembly.addAll {} declarations with
  | .error error => .error error
  | .ok assembly =>
    .ok { name := name, fields := assembly.fields, relations := assembly.relations,
          directives := Directives.ofRecord assembly.directives, createdAt := now,
          updatedAt := now }

def ofRecord (now : Timestamp) (record : Record) : Except ParseError Schema :=
  match Declaration.classify record with
  | .error error => .error error
  | .ok (name, declarations) => ofDeclarations now name declarations

end Schema

end EntitySchema
