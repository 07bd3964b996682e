import EntitySchema.Emit.Document
import EntitySchema.Schema.Basic

/-!
Schemas and their parts as documents: which members are written, in which order, and which are
left out when they are empty.
-/

namespace EntitySchema

open Document

def memberUnless (isAbsent : Bool) (key : String) (value : Document) : List (Text × Document) :=
  if isAbsent then [] else [(utf8 key, value)]

def memberOfInt? (key : String) (value : Option Int) : List (Text × Document) :=
  match value with
  | none => []
  | some value => [(utf8 key, .integer value)]

def textList (texts : List Text) : Document := .list (texts.map .string)

namespace Relation

def toDocument (relation : Relation) : Document :=
  .map <|
    [(utf8 "operator", .string relation.operator), (utf8 "targetType", .string relation.target)] ++
    memberUnless relation.inverse.isEmpty "inverse" (.string relation.inverse) ++
    memberUnless (!relation.isArray) "isArray" (.boolean true) ++
    memberUnless (!relation.isOptional) "isOptional" (.boolean true)

end Relation

namespace DefaultValue

def toDocument : DefaultValue → Document
  | .null => .null
  | .boolean value => .boolean value
  | .number value => .number value
  | .string text => .string text
  | .function name => .map [(utf8 "function", .string name)]
  | .object => .map []
  | .array => .list []
  | .unknown => .null

end DefaultValue

namespace Field

def toDocument (field : Field) : Document :=
  .map <|
    [(utf8 "type", .string field.type), (utf8 "modifier", .string field.modifier),
      (utf8 "isArray", .boolean field.isArray), (utf8 "isOptional", .boolean field.isOptional),
      (utf8 "isRequired", .boolean field.isRequired), (utf8 "isUnique", .boolean field.isUnique),
      (utf8 "isIndexed", .boolean field.isIndexed)] ++
    memberOfInt? "precision" field.precision ++ memberOfInt? "scale" field.scale ++
    memberOfInt? "length" field.length ++
    (match field.default with
      | none => []
      | some value => [(utf8 "defaultValue", value.toDocument)]) ++
    (match field.relation with
      | none => []
      | some relation => [(utf8 "relation", relation.toDocument)])

end Field

namespace Directives

def indexDocument (index : Index) : Document :=
  .map [(utf8 "fields", textList index.fields), (utf8 "unique", .boolean index.isUnique)]

def vectorDocument (vector : Embedding) : Document :=
  .map [(utf8 "field", .string vector.field), (utf8 "dimensions", .integer vector.dimensions)]

def toDocument (directives : Directives) : Document :=
  .map <|
    memberUnless directives.partitionBy.isEmpty "partitionBy" (textList directives.partitionBy) ++
    memberUnless directives.indexes.isEmpty "index"
      (.list (directives.indexes.map indexDocument)) ++
    memberUnless directives.fullText.isEmpty "fts" (textList directives.fullText) ++
    memberUnless directives.vectors.isEmpty "vector"
      (.list (directives.vectors.map vectorDocument))

end Directives

namespace Schema

def toDocument (shows : Timestamp → Bool) (schema : Schema) : Document :=
  .map <|
    memberUnless schema.name.isEmpty "name" (.string schema.name) ++
    [(utf8 "version", .integer schema.version),
      (utf8 "fields",
        .table (schema.fields.toList.map fun (key, field) => (key, field.toDocument))),
      (utf8 "relations",
        .table (schema.relations.toList.map fun (key, relation) => (key, relation.toDocument))),
      (utf8 "directives", schema.directives.toDocument)] ++
    memberUnless (!shows schema.createdAt) "createdAt" (.timestamp schema.createdAt) ++
    memberUnless (!shows schema.updatedAt) "updatedAt" (.timestamp schema.updatedAt)

end Schema

end EntitySchema
