import EntitySchema.DefaultValue
import EntitySchema.Relation
import EntitySchema.TypeExpr

/-!
Fields of an entity, and how they are written: type, array suffix, modifiers, default.
-/

namespace EntitySchema

structure Field where
  type : Text
  expr : Option TypeExpr := none
  modifier : Text := []
  isArray : Bool := false
  isOptional : Bool := false
  isRequired : Bool := false
  isUnique : Bool := false
  isIndexed : Bool := false
  precision : Option Int := none
  scale : Option Int := none
  length : Option Int := none
  default : Option DefaultValue := none
  relation : Option Relation := none
  deriving Repr

namespace Field

def typeText (field : Field) : Text :=
  match field.expr with
  | none => field.type
  | some expr => expr.render

/-- The modifiers as written, or rebuilt from the flags when none were. -/
def modifierText (field : Field) : Text :=
  if field.modifier.isEmpty then
    (if field.isRequired then utf8 "!" else []) ++ (if field.isOptional then utf8 "?" else []) ++
      (if field.isIndexed then utf8 "#" else [])
  else field.modifier

def render (field : Field) : Text :=
  match field.relation with
  | some relation => relation.render
  | none =>
    field.typeText ++ (if field.isArray then utf8 "[]" else []) ++ field.modifierText ++
      match field.default with
      | none => []
      | some value => utf8 " = " ++ value.render

end Field

end EntitySchema
