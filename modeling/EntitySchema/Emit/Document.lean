import EntitySchema.Json.Basic
import EntitySchema.Number.Decimal
import EntitySchema.Timestamp
import EntitySchema.Yaml.Block

/-!
The neutral shape of what is written out: every output format renders the same tree.
-/

namespace EntitySchema

inductive Document where
  | null
  | boolean (value : Bool)
  | integer (value : Int)
  | number (value : Binary)
  | string (text : Text)
  | timestamp (time : Timestamp)
  | list (items : List Document)
  | map (members : List (Text × Document))
  | table (entries : List (Text × Document))
  deriving Inhabited, Repr

inductive JsonError where
  | notFinite
  | moment (fault : Timestamp.Fault)
  deriving DecidableEq, Repr

namespace JsonError

def describe : JsonError → Text
  | .notFinite => utf8 "json: a number is not finite"
  | .moment fault =>
    utf8 "json: error calling MarshalJSON for type *time.Time: Time.MarshalJSON: " ++ fault.describe

end JsonError

namespace Document

mutual

def toJson : Document → Except JsonError Json
  | .null => .ok .null
  | .boolean value => .ok (.boolean value)
  | .integer value => .ok (.number (Text.ofInt value))
  | .number value =>
    if value.isFinite then .ok (.number (value.render .double .json)) else .error .notFinite
  | .string text => .ok (.string text)
  | .timestamp time =>
    match time.fault? with
    | none => .ok (.string time.render)
    | some fault => .error (.moment fault)
  | .list items => (itemsToJson items).map .array
  | .map members => (membersToJson members).map .object
  | .table entries => (membersToJson entries).map .object

def itemsToJson : List Document → Except JsonError (List Json)
  | [] => .ok []
  | item :: items =>
    match item.toJson with
    | .error error => .error error
    | .ok item => (itemsToJson items).map (item :: ·)

def membersToJson : List (Text × Document) → Except JsonError (List (Text × Json))
  | [] => .ok []
  | (key, value) :: members =>
    match value.toJson with
    | .error error => .error error
    | .ok value => (membersToJson members).map ((key, value) :: ·)

end

def numberText (value : Binary) : Text :=
  match value with
  | .nan => utf8 ".nan"
  | .infinite false => utf8 ".inf"
  | .infinite true => utf8 "-.inf"
  | value => value.render .double .general

def namedEntries? (entries : List (Text × Yaml.Block)) :
    Option (List (Yaml.Spelling × Yaml.Block)) :=
  entries.mapM fun (name, value) => (Yaml.Spelling.ofName? name).map fun name => (name, value)

mutual

/--
The tree as a YAML block; there is none if a declared name is no text, or if the value of one cannot
be settled. The values of a table are settled before the whole is written.
-/
def toBlock? : Document → Option Yaml.Block
  | .null => some (.scalar { text := utf8 "null" })
  | .boolean value => some (.scalar { text := utf8 (if value then "true" else "false") })
  | .integer value => some (.scalar { text := Text.ofInt value })
  | .number value => some (.scalar { text := numberText value })
  | .string text => some (.scalar (.ofString text))
  | .timestamp time => some (.scalar { text := time.render })
  | .list items => (itemsToBlocks? items).map .list
  | .map members => (membersToBlocks? members).map .map
  | .table entries => ((settledEntries? entries).bind namedEntries?).map .map

def itemsToBlocks? : List Document → Option (List Yaml.Block)
  | [] => some []
  | item :: items =>
    match item.toBlock?, itemsToBlocks? items with
    | some item, some items => some (item :: items)
    | _, _ => none

def membersToBlocks? : List (Text × Document) → Option (List (Yaml.Spelling × Yaml.Block))
  | [] => some []
  | (key, value) :: members =>
    match value.toBlock?, membersToBlocks? members with
    | some value, some members => some ((.ofString key, value) :: members)
    | _, _ => none

def settledEntries? : List (Text × Document) → Option (List (Text × Yaml.Block))
  | [] => some []
  | (name, value) :: entries =>
    match value.toBlock?, settledEntries? entries with
    | some block, some entries => block.reread?.map fun block => (name, block) :: entries
    | _, _ => none

end

end Document

end EntitySchema
