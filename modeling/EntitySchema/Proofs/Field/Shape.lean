import EntitySchema.Proofs.Field.Parsed

/-!
What callers may rely on in a field that was read. Its type tree is legal at every node, its flags
are those that its modifiers stand for, and what does not belong to its kind is absent.
-/

namespace EntitySchema

open Expression

namespace TypeExpr

inductive Within : TypeExpr → TypeExpr → Prop
  | root {expr : TypeExpr} : Within expr expr
  | argument {node inner : TypeExpr} {name : Text} {arguments : List TypeExpr} :
      inner ∈ arguments → Within node inner → Within node (.generic name arguments)

def IsNamed : TypeExpr → Prop
  | .named _ => True
  | _ => False

/-- What a node must be by its own name, whatever its arguments are made of. -/
def LegalNode : TypeExpr → Prop
  | .primitive name => name ∈ TypeName.primitives
  | .parametric name precision scale length =>
    (name = TypeName.decimal ∧ length = none ∧ ∃ digits, precision = some digits ∧ 1 ≤ digits ∧
      digits ≤ 38 ∧ ∀ places ∈ scale, 0 ≤ places ∧ places ≤ digits) ∨
    name ∈ TypeName.sized ∧ precision = none ∧ scale = none ∧
      ∃ size, length = some size ∧ 1 ≤ size ∧ size ≤ 2 ^ 63 - 1
  | .generic name arguments =>
    (name = utf8 "map" ∧ arguments.length = 2 ∧ ∀ argument ∈ arguments, ¬argument.IsNamed) ∨
    (name = TypeName.list ∧ arguments.length = 1 ∧ ∀ argument ∈ arguments, ¬argument.IsNamed) ∨
    name ∈ TypeName.nameTakers ∧ ∃ argument, arguments = [.named argument]
  | .named name => IsName name

theorem within_generic_iff {node : TypeExpr} {name : Text} {arguments : List TypeExpr} :
    node.Within (.generic name arguments) ↔
      node = .generic name arguments ∨ ∃ inner ∈ arguments, node.Within inner := by
  constructor
  · intro within
    cases within with
    | root => exact Or.inl rfl
    | argument member inside => exact Or.inr ⟨_, member, inside⟩
  · rintro (rfl | ⟨inner, member, inside⟩)
    · exact .root
    · exact .argument member inside

theorem Valid.not_isNamed {expr : TypeExpr} (valid : expr.Valid) : ¬expr.IsNamed := by
  cases valid <;> simp [IsNamed]

theorem Valid.legalNode {expr : TypeExpr} (valid : expr.Valid) : expr.LegalNode := by
  cases valid with
  | primitive member => exact member
  | decimal low high => exact Or.inl ⟨rfl, rfl, _, rfl, low, high, by simp⟩
  | scaled low high above below =>
      refine Or.inl ⟨rfl, rfl, _, rfl, low, high, ?_⟩
      intro places given
      obtain rfl := Option.some.inj given
      exact ⟨above, below⟩
  | sized member low high => exact Or.inr ⟨member, rfl, rfl, _, rfl, low, high⟩
  | map key value =>
      refine Or.inl ⟨rfl, rfl, ?_⟩
      simp [key.not_isNamed, value.not_isNamed]
  | list item =>
      refine Or.inr (Or.inl ⟨rfl, rfl, ?_⟩)
      simp [item.not_isNamed]
  | named member _ => exact Or.inr (Or.inr ⟨member, _, rfl⟩)

theorem Valid.legalNode_of_within {expr node : TypeExpr} (valid : expr.Valid)
    (within : node.Within expr) : node.LegalNode := by
  induction valid with
  | primitive member =>
      cases within
      exact (Valid.primitive member).legalNode
  | decimal low high =>
      cases within
      exact (Valid.decimal low high).legalNode
  | scaled low high above below =>
      cases within
      exact (Valid.scaled low high above below).legalNode
  | sized member low high =>
      cases within
      exact (Valid.sized member low high).legalNode
  | map key value keyIh valueIh =>
      rcases within_generic_iff.mp within with rfl | ⟨inner, member, inside⟩
      · exact (Valid.map key value).legalNode
      · simp only [List.mem_cons, List.not_mem_nil, or_false] at member
        rcases member with rfl | rfl
        · exact keyIh inside
        · exact valueIh inside
  | list item ih =>
      rcases within_generic_iff.mp within with rfl | ⟨inner, member, inside⟩
      · exact (Valid.list item).legalNode
      · rw [List.mem_singleton] at member
        subst member
        exact ih inside
  | named member isName =>
      rcases within_generic_iff.mp within with rfl | ⟨inner, found, inside⟩
      · exact (Valid.named member isName).legalNode
      · rw [List.mem_singleton] at found
        subst found
        cases inside
        exact isName

end TypeExpr

namespace Field

/-- A field that stands for a relation and has nothing of its own beside it. -/
structure HoldsRelation (field : Field) (relation : Relation) : Prop where
  held : field.relation = some relation
  type : field.type = TypeName.relation
  untyped : field.expr = none
  modifier : field.modifier = []
  default : field.default = none
  parameters : field.precision = none ∧ field.scale = none ∧ field.length = none
  flags : field.isRequired = false ∧ field.isUnique = false ∧ field.isIndexed = false
  isArray : field.isArray = relation.isArray
  isOptional : field.isOptional = relation.isOptional
  operator : relation.operator ∈ Operator.all
  target : relation.target ≠ [] ∧ IsName relation.target
  inverse : relation.inverse = [] ∨ IsName relation.inverse

/-- A field of a type, with the marks that its modifiers stand for. -/
structure HoldsType (field : Field) (expr : TypeExpr) : Prop where
  unrelated : field.relation = none
  held : field.expr = some expr
  root : ¬expr.IsNamed
  legal : ∀ node : TypeExpr, node.Within expr → node.LegalNode
  type : field.type = expr.baseName
  parameters : field.precision = expr.precision? ∧ field.scale = expr.scale? ∧
    field.length = expr.length?
  modifier : ∀ sign ∈ field.modifier, sign ∈ utf8 "!?#"
  isRequired : field.isRequired = true ↔ 0x21 ∈ field.modifier
  isOptional : field.isOptional = true ↔ 0x3F ∈ field.modifier
  isIndexed : field.isIndexed = true ↔ 0x23 ∈ field.modifier
  isUnique : field.isUnique = true ↔ 0x21 ∈ field.modifier ∨ 0x23 ∈ field.modifier
  indexedUnique : field.isIndexed = true → field.isUnique = true
  default : ∀ value ∈ field.default, value.WellFormed

theorem holdsRelation_of_wellFormed {relation : Relation} (wellFormed : relation.WellFormed) :
    HoldsRelation
      { type := TypeName.relation, isArray := relation.isArray,
        isOptional := relation.isOptional, relation := some relation } relation where
  held := rfl
  type := rfl
  untyped := rfl
  modifier := rfl
  default := rfl
  parameters := ⟨rfl, rfl, rfl⟩
  flags := ⟨rfl, rfl, rfl⟩
  isArray := rfl
  isOptional := rfl
  operator := wellFormed.operator
  target := ⟨wellFormed.target.ne_nil, wellFormed.target⟩
  inverse := wellFormed.inverse

theorem holdsType_ofParts {expr : TypeExpr} {modifier : Text} {isArray : Bool}
    {default : Option DefaultValue} (valid : expr.Valid)
    (known : ∀ byte ∈ modifier, byte ∈ modifierBytes)
    (wellFormed : ∀ value ∈ default, value.WellFormed) :
    HoldsType (ofParts expr modifier isArray default) expr where
  unrelated := rfl
  held := rfl
  root := valid.not_isNamed
  legal := fun _ within => valid.legalNode_of_within within
  type := rfl
  parameters := ⟨rfl, rfl, rfl⟩
  modifier := known
  isRequired := by simp [ofParts]
  isOptional := by simp [ofParts]
  isIndexed := by simp [ofParts]
  isUnique := by simp [ofParts]
  indexedUnique := by
    intro indexed
    simp only [ofParts] at indexed ⊢
    rw [indexed, Bool.or_true]
  default := wellFormed

/-- Every field that is read is a relation, or a legal type with consistent marks. -/
theorem parse_holds {text : Text} {field : Field} (parsed : parse text = .ok field) :
    (∃ relation, field.HoldsRelation relation) ∨ ∃ expr, field.HoldsType expr := by
  cases wellFormed_of_parse parsed with
  | relation wellFormed => exact Or.inl ⟨_, holdsRelation_of_wellFormed wellFormed⟩
  | typed valid known wellFormed => exact Or.inr ⟨_, holdsType_ofParts valid known wellFormed⟩

def pricedListText : Text := utf8 "List<Decimal(10,2)>[]!# = now()"

theorem parse_holds_pricedList :
    ∃ field, parse pricedListText = .ok field ∧
      field.render = utf8 "list<decimal(10,2)>[]!# = now()" ∧
      ((∃ relation, field.HoldsRelation relation) ∨ ∃ expr, field.HoldsType expr) := by
  have rendered : (parse pricedListText).map render =
      .ok (utf8 "list<decimal(10,2)>[]!# = now()") := by
    decide +kernel
  cases parsed : parse pricedListText with
  | error => simp [parsed, Except.map] at rendered
  | ok field =>
      rw [parsed] at rendered
      exact ⟨field, rfl, Except.ok.inj rendered, parse_holds parsed⟩

end Field

end EntitySchema
