import EntitySchema.Value

/-!
The table-level directives of a schema: partitioning, indexes, full-text search and vectors. A
directive of another name and a value of the wrong shape are dropped without complaint.
-/

namespace EntitySchema

def directiveSign : Text := utf8 "$"

namespace Key

def type : Text := utf8 "$type"

def partitionBy : Text := utf8 "$partitionBy"

def index : Text := utf8 "$index"

def fullText : Text := utf8 "$fts"

def vector : Text := utf8 "$vector"

def isDirective (key : Text) : Bool := Text.startsWith key directiveSign

end Key

structure Index where
  fields : List Text
  isUnique : Bool := false
  deriving DecidableEq, Repr

structure Embedding where
  field : Text
  dimensions : Int
  deriving DecidableEq, Repr

structure Directives where
  partitionBy : List Text := []
  indexes : List Index := []
  fullText : List Text := []
  vectors : List Embedding := []
  deriving DecidableEq, Repr

namespace Directives

def isEmpty (directives : Directives) : Bool :=
  directives.partitionBy.isEmpty && directives.indexes.isEmpty && directives.fullText.isEmpty &&
    directives.vectors.isEmpty

def asString? : Value → Option Text
  | .string text => some text
  | _ => none

def stringList? : Value → Option (List Text)
  | .strings texts => some texts
  | .list items => items.mapM asString?
  | _ => none

def indexEntries? : Value → Option (OrderedMap Value)
  | .record fields => some fields
  | .table fields => some fields
  | _ => none

def isTrue : Option Value → Bool
  | some (.boolean value) => value
  | _ => false

/-- An index: a list of names, or a mapping with `fields` and perhaps `unique`. -/
def index? (item : Value) : Option Index :=
  match stringList? item with
  | some fields => some { fields := fields }
  | none => do
    let entries ← indexEntries? item
    let fields ← (entries.get? (utf8 "fields")).bind stringList?
    some { fields := fields, isUnique := isTrue (entries.get? (utf8 "unique")) }

def indexList : Value → List Index
  | .list items => items.filterMap index?
  | .stringLists lists => lists.map fun fields => { fields := fields }
  | _ => []

def asDouble? : Value → Option Binary
  | .integer _ value => some (Binary.ofInt .double value)
  | .single value => some (value.convert .double)
  | .double value => some value
  | _ => none

/-- A whole number that fits in 32 bits with sign. -/
def dimensions? (value : Value) : Option Int := do
  let number ← asDouble? value
  let whole ← number.toInt?
  if Int32.minValue.toInt ≤ whole ∧ whole ≤ Int32.maxValue.toInt then some whole else none

def vector? (field : Text) (value : Value) : Option Embedding :=
  (dimensions? value).map fun dimensions => ⟨field, dimensions⟩

def vectorList : Value → List Embedding
  | .record fields => fields.toList.filterMap fun entry => vector? entry.1 entry.2
  | .table fields => fields.sorted.toList.filterMap fun entry => vector? entry.1 entry.2
  | .counts fields =>
    fields.sorted.toList.filterMap fun entry => vector? entry.1 (.integer .int entry.2)
  | _ => []

def add (directives : Directives) (key : Text) (value : Value) : Directives :=
  if key = Key.partitionBy then
    match stringList? value with
    | some names => { directives with partitionBy := names }
    | none => directives
  else if key = Key.index then { directives with indexes := indexList value }
  else if key = Key.fullText then
    match stringList? value with
    | some names => { directives with fullText := names }
    | none => directives
  else if key = Key.vector then { directives with vectors := vectorList value }
  else directives

def ofRecord (record : Record) : Directives :=
  record.toList.foldl (fun directives entry => directives.add entry.1 entry.2) {}

end Directives

end EntitySchema
