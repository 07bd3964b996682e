import EntitySchema.Expression.Error
import EntitySchema.Json.Reader
import EntitySchema.Yaml.Settings

/-!
Records from YAML nodes. Keys keep their order and their lines; a repeated key, a key that is no
scalar and a scalar with a wrong tag stop the decoding, and the record then holds the pairs
before that one.
-/

namespace EntitySchema

inductive DecodeError where
  /-- The text is not YAML, or a scalar does not fit its tag or its use. -/
  | unreadable
  | invalid (error : ParseError)
  | mappingExpected (line : Nat)
  | recordsExpected (line : Nat)
  | severalDocuments
  | unsupportedFormat (format : Text)
  /-- No answer at all: an alias leads back into the node around it, so decoding never ends. -/
  | endless
  deriving DecidableEq, Repr

namespace DecodeError

def describe : DecodeError → Text
  | .unreadable => utf8 "yaml: unreadable document"
  | .invalid error => error.describe
  | .mappingExpected line =>
    ErrorKind.invalidRecord.message ++ utf8 ": line " ++ Text.ofNat line ++
      utf8 ": expected a mapping"
  | .recordsExpected line =>
    ErrorKind.invalidRecord.message ++ utf8 ": line " ++ Text.ofNat line ++
      utf8 ": expected a mapping or a list of mappings"
  | .severalDocuments =>
    ErrorKind.invalidRecord.message ++ utf8 ": json file holds more than one document"
  | .unsupportedFormat format => utf8 "loader: unsupported file format: " ++ format
  | .endless => utf8 "yaml: alias inside the node that it stands for"

end DecodeError

namespace Yaml.Node

/-- A key as text: a null is empty, any other scalar is taken as it is written. -/
def keyText? : Node → Option Text
  | .scalar tag style text _ =>
    match scalarValue? tag style text with
    | none => none
    | some .null => some []
    | some (.string decoded) => some decoded
    | some _ => some text
  | .alias _ target _ _ => target.keyText?
  | .enclosing .. => none
  | .sequence .. => none
  | .mapping .. => none

mutual

/--
The value of a node; an alias has the value of its target. An alias to a node around it is met only
when all that stands in front of it in that node has been decoded, so it is met again and again.
-/
def toValue : Node → Except DecodeError Value
  | .scalar tag style text _ =>
    match scalarValue? tag style text with
    | some value => .ok value
    | none => .error .unreadable
  | .alias _ target _ _ => target.toValue
  | .enclosing .. => .error .endless
  | .sequence _ items _ =>
    match itemValues items with
    | .ok values => .ok (.list values)
    | .error error => .error error
  | .mapping _ pairs _ =>
    match addPairs {} pairs with
    | (record, none) => .ok (.record record)
    | (_, some error) => .error error

def itemValues : List Node → Except DecodeError (List Value)
  | [] => .ok []
  | item :: items =>
    match item.toValue with
    | .error error => .error error
    | .ok value =>
      match itemValues items with
      | .error error => .error error
      | .ok values => .ok (value :: values)

/-- Adds pairs to a record up to the first one that cannot be decoded, and says why it cannot. -/
def addPairs (record : Record) : List (Node × Node) → Record × Option DecodeError
  | [] => (record, none)
  | (key, value) :: pairs =>
    match key.keyText? with
    | none => (record, some .unreadable)
    | some name =>
      match record.find? name with
      | some first =>
        (record, some (.invalid { cause := .repeatedKey key.line first.line, field := name }))
      | none =>
        match value.toValue with
        | .error error => (record, some error)
        | .ok decoded => addPairs ⟨record.entries ++ [⟨name, decoded, key.line⟩]⟩ pairs

end

end Yaml.Node

inductive Yaml.Tree where
  | document (contents : List Node) (line : Nat)
  | node (root : Node)

namespace Yaml.Tree

/-- The node inside; a document has one only if it has a single content. -/
def root? : Tree → Option Node
  | .document [root] _ => some root
  | .document .. => none
  | .node root => some root

def line : Tree → Nat
  | .document _ line => line
  | .node root => root.line

end Yaml.Tree

namespace Record

open Yaml (Node)

/--
Fills a record from a node. A node that is no mapping leaves the record as it was; a mapping
replaces its content, up to the pair that fails.
-/
def fill (record : Record) (node : Node) : Record × Option DecodeError :=
  match node with
  | .mapping _ pairs _ => Node.addPairs {} pairs
  | node => (record, some (.mappingExpected node.line))

def fillFromTree (record : Record) (tree : Yaml.Tree) : Record × Option DecodeError :=
  match tree.root? with
  | some root => record.fill root
  | none => (record, some (.mappingExpected tree.line))

def ofNode (node : Node) : Except DecodeError Record :=
  match fill {} node with
  | (record, none) => .ok record
  | (_, some error) => .error error

/--
Fills a record from the first document of a text. A missing document and one that is a null, if only
by its tag, change nothing.
-/
def fillFromYaml (record : Record) (text : Text) : Record × Option DecodeError :=
  match Yaml.firstDocument? text with
  | none => (record, some .unreadable)
  | some none => (record, none)
  | some (some (root, rest)) =>
    if root.isNull then
      (record, if (root.readSettings? [] rest).isSome then none else some .unreadable)
    else record.fill root

def fillFromRoot (record : Record) (text : Text) : Record × Option DecodeError :=
  match Yaml.firstDocument? text with
  | none => (record, some .unreadable)
  | some none => record.fillFromTree (.document [] 0)
  | some (some (root, _)) => record.fillFromTree (.document [root] root.line)

def fillFromJson? (record : Record) (text : Text) : Option (Record × Option DecodeError) :=
  match Json.read? text with
  | none => none
  | some _ => some (record.fillFromYaml (Json.trimBlanks text))

end Record

inductive FileFormat where
  | yaml
  | json
  deriving DecidableEq, Repr

namespace FileFormat

def name : FileFormat → Text
  | .yaml => utf8 "yaml"
  | .json => utf8 "json"

def ofName? (name : Text) : Option FileFormat :=
  [FileFormat.yaml, .json].find? fun format => format.name = name

end FileFormat

namespace Record

open Yaml (Node)

def ofNodes : List Node → Except DecodeError (List Record)
  | [] => .ok []
  | node :: nodes =>
    match ofNode node with
    | .error error => .error error
    | .ok record =>
      match ofNodes nodes with
      | .error error => .error error
      | .ok records => .ok (record :: records)

def ofDocument (root : Node) : Except DecodeError (List Record) :=
  match root with
  | .mapping .. =>
    match ofNode root with
    | .ok record => .ok [record]
    | .error error => .error error
  | .sequence _ items _ => ofNodes items
  | root => if root.isNull then .ok [] else .error (.recordsExpected root.line)

/-- The records of a stream of documents; a JSON file may hold only one. -/
def ofDocuments (format : FileFormat) (isFirst isReadable : Bool) :
    List Node → Except DecodeError (List Record)
  | [] => if isReadable then .ok [] else .error .unreadable
  | root :: roots =>
    if format = .json ∧ isFirst = false then .error .severalDocuments
    else
      match ofDocument root with
      | .error error => .error error
      | .ok records =>
        match ofDocuments format false isReadable roots with
        | .error error => .error error
        | .ok others => .ok (records ++ others)

def decode (format : FileFormat) (text : Text) : Except DecodeError (List Record) :=
  let (roots, isReadable) := Yaml.documents text
  ofDocuments format true isReadable roots

def decodeNamed (format : Text) (text : Text) : Except DecodeError (List Record) :=
  match FileFormat.ofName? format with
  | none => .error (.unsupportedFormat format)
  | some format => decode format text

end Record

end EntitySchema
