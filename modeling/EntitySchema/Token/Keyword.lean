import EntitySchema.Text.Case

/-!
The names of the built-in types, and how many arguments each of them takes.
-/

namespace EntitySchema

namespace TypeName

def string : Text := utf8 "string"

def float : Text := utf8 "float"

def double : Text := utf8 "double"

def boolean : Text := utf8 "boolean"

def text : Text := utf8 "text"

def decimal : Text := utf8 "decimal"

def list : Text := utf8 "list"

def relation : Text := utf8 "relation"

def primitives : List Text :=
  [string, utf8 "int", float, double, boolean, utf8 "uuid", utf8 "timestamp",
    utf8 "timestamptz", utf8 "date", utf8 "time", utf8 "json", text, utf8 "binary", utf8 "long",
    utf8 "bigint"]

/-- Types with numeric arguments, each with the least and the greatest count. -/
def parametrics : List (Text × Nat × Nat) :=
  [(decimal, 1, 2), (utf8 "varchar", 1, 1), (utf8 "char", 1, 1), (utf8 "fixed", 1, 1)]

def generics : List (Text × Nat) :=
  [(utf8 "map", 2), (list, 1), (utf8 "struct", 1), (utf8 "enum", 1), (utf8 "ref", 1)]

/-- Generic types whose argument is a user-defined name and not a type. -/
def nameTakers : List Text := [utf8 "struct", utf8 "enum", utf8 "ref"]

def aliases : List (Text × Text) := [(utf8 "bool", boolean)]

def isPrimitive (name : Text) : Bool := primitives.contains name

def parametricArity? (name : Text) : Option (Nat × Nat) := parametrics.lookup name

def isParametric (name : Text) : Bool := (parametricArity? name).isSome

def genericArity? (name : Text) : Option Nat := generics.lookup name

def isGeneric (name : Text) : Bool := (genericArity? name).isSome

def canonical? (name : Text) : Option Text :=
  let lowered := Text.lower name
  let resolved := (aliases.lookup lowered).getD lowered
  if isPrimitive resolved || isParametric resolved || isGeneric resolved then some resolved
  else none

def keywords : List Text :=
  primitives ++ aliases.map Prod.fst ++ parametrics.map Prod.fst ++ generics.map Prod.fst

def isKeyword (word : Text) : Bool := keywords.contains (Text.lower word)

end TypeName

end EntitySchema
