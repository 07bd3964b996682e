import EntitySchema.Text.Basic

/-!
Maps from names to values that remember the order in which the names were first entered. An entry
may carry the line of the file it was read from.
-/

namespace EntitySchema

structure Entry (α : Type) where
  key : Text
  value : α
  line : Nat := 0
  deriving Repr

structure OrderedMap (α : Type) where
  entries : List (Entry α) := []
  deriving Repr

namespace OrderedMap

variable {α : Type}

def empty : OrderedMap α := ⟨[]⟩

def size (map : OrderedMap α) : Nat := map.entries.length

def keys (map : OrderedMap α) : List Text := map.entries.map Entry.key

def toList (map : OrderedMap α) : List (Text × α) :=
  map.entries.map fun entry => (entry.key, entry.value)

def find? (map : OrderedMap α) (key : Text) : Option (Entry α) :=
  map.entries.find? fun entry => entry.key = key

def get? (map : OrderedMap α) (key : Text) : Option α := (map.find? key).map Entry.value

def contains (map : OrderedMap α) (key : Text) : Bool := (map.find? key).isSome

def lineOf (map : OrderedMap α) (key : Text) : Nat := ((map.find? key).map Entry.line).getD 0

def replace (key : Text) (value : α) : List (Entry α) → List (Entry α)
  | [] => []
  | entry :: entries =>
    if entry.key = key then { entry with value := value } :: entries
    else entry :: replace key value entries

/-- Stores a value: a new key goes to the end, a known one keeps its place and its line. -/
def set (map : OrderedMap α) (key : Text) (value : α) : OrderedMap α :=
  if map.contains key then ⟨replace key value map.entries⟩
  else ⟨map.entries ++ [{ key := key, value := value }]⟩

/-- The map with an entry for each pair; of pairs with the same key the last value stays. -/
def ofList (pairs : List (Text × α)) : OrderedMap α :=
  pairs.foldl (fun map pair => map.set pair.1 pair.2) empty

def sorted (map : OrderedMap α) : OrderedMap α :=
  ⟨map.entries.mergeSort fun left right => Text.le left.key right.key⟩

end OrderedMap

end EntitySchema
