import EntitySchema.Hash
import EntitySchema.Schema.Basic

/-!
The canonical text of a schema, one `key: value` line for each declaration: the name, the fields,
the relations, then the directives. Its hash, with the version in front, is the fingerprint.
-/

namespace EntitySchema

namespace Directives

def nameList (names : List Text) : Text :=
  utf8 "[" ++ Text.join (utf8 ", ") names ++ utf8 "]"

def indexText (index : Index) : Text :=
  if index.isUnique then
    utf8 "\x7bfields: " ++ nameList index.fields ++ utf8 ", unique: true\x7d"
  else nameList index.fields

def vectorText (vector : Embedding) : Text :=
  vector.field ++ utf8 ": " ++ Text.ofInt vector.dimensions

def lines (directives : Directives) : List (Text × Text) :=
  (if directives.partitionBy.isEmpty then []
    else [(Key.partitionBy, nameList directives.partitionBy)]) ++
  (if directives.indexes.isEmpty then []
    else [(Key.index, nameList (directives.indexes.map indexText))]) ++
  (if directives.fullText.isEmpty then []
    else [(Key.fullText, nameList directives.fullText)]) ++
  (if directives.vectors.isEmpty then []
    else [(Key.vector,
      utf8 "\x7b" ++ Text.join (utf8 ", ") (directives.vectors.map vectorText) ++ utf8 "\x7d")])

end Directives

namespace Schema

def renderLine (line : Text × Text) : Text := line.1 ++ utf8 ": " ++ line.2 ++ utf8 "\n"

def lines (schema : Schema) : List (Text × Text) :=
  (if schema.name.isEmpty then [] else [(Key.type, schema.name)]) ++
  schema.fields.toList.map (fun entry => (entry.1, entry.2.render)) ++
  schema.relations.toList.map (fun entry => (entry.1, entry.2.render)) ++
  schema.directives.lines

def render (schema : Schema) : Text := schema.lines.flatMap renderLine

def fingerprintText (schema : Schema) : Text :=
  Text.ofInt schema.version ++ utf8 "\n" ++ schema.render

def fingerprint (schema : Schema) : UInt64 := Hash.hash schema.fingerprintText

end Schema

end EntitySchema
