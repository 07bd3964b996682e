import EntitySchema.Number.Binary
import EntitySchema.OrderedMap
import EntitySchema.Timestamp

/-!
Values of a schema record. Files give strings, numbers, booleans, nulls, timestamps, lists and
nested records; a record built by hand may also hold typed lists, tables and sized numbers.
-/

namespace EntitySchema

inductive IntegerKind where
  | int
  | int32
  | int64
  | uint
  | uint32
  | uint64
  deriving DecidableEq, Repr

inductive Value where
  | null
  | boolean (value : Bool)
  | string (text : Text)
  | integer (kind : IntegerKind) (value : Int)
  | single (value : Binary)
  | double (value : Binary)
  | timestamp (time : Timestamp)
  | list (items : List Value)
  | record (fields : OrderedMap Value)
  | strings (texts : List Text)
  | stringLists (lists : List (List Text))
  | table (fields : OrderedMap Value)
  | counts (fields : OrderedMap Int)
  deriving Inhabited, Repr

/-- The input of the schema assembler: an ordered mapping of keys to values. -/
abbrev Record := OrderedMap Value

def Record.ofTable (fields : OrderedMap Value) : Record := OrderedMap.ofList fields.sorted.toList

namespace IntegerKind

def name : IntegerKind → Text
  | .int => utf8 "int"
  | .int32 => utf8 "int32"
  | .int64 => utf8 "int64"
  | .uint => utf8 "uint"
  | .uint32 => utf8 "uint32"
  | .uint64 => utf8 "uint64"

end IntegerKind

namespace Value

def typeName : Value → Text
  | .null => utf8 "<nil>"
  | .boolean _ => utf8 "bool"
  | .string _ => utf8 "string"
  | .integer kind _ => kind.name
  | .single _ => utf8 "float32"
  | .double _ => utf8 "float64"
  | .timestamp _ => utf8 "time.Time"
  | .list _ => utf8 "[]interface \x7b\x7d"
  | .record _ => utf8 "*icetype.Record"
  | .strings _ => utf8 "[]string"
  | .stringLists _ => utf8 "[][]string"
  | .table _ => utf8 "map[string]interface \x7b\x7d"
  | .counts _ => utf8 "map[string]int"

end Value

end EntitySchema
