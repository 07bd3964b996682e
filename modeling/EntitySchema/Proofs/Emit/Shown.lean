import EntitySchema.Proofs.Emit.Document
import EntitySchema.Proofs.Field.WellFormed
import EntitySchema.Proofs.OrderedMap

/-!
Schemas as JSON objects. The members of an object that shows a schema have the values of its parts,
and fields and relations stand in their order. What a schema is written as shows it.
-/

namespace EntitySchema

namespace Json

/-- An object whose members have some of the given names, in the order of the names. -/
def HasMembers (names : List String) (json : Json) : Prop :=
  ∃ members, json = .object members ∧ (members.map Prod.fst).Sublist (names.map utf8)

def ofTexts (texts : List Text) : Json := .array (texts.map .string)

end Json

def OrderedMap.ShownAs {α : Type} (shown : α → Json → Prop) (map : OrderedMap α) (json : Json) :
    Prop :=
  ∃ members, json = .object members ∧ members.map Prod.fst = map.keys ∧ map.keys.Nodup ∧
    List.Forall₂ (fun entry member => shown entry.2 member.2) map.toList members

structure Relation.ShownAs (relation : Relation) (json : Json) : Prop where
  members : json.HasMembers ["operator", "targetType", "inverse", "isArray", "isOptional"]
  operator : json.member? (utf8 "operator") = some (.string relation.operator)
  target : json.member? (utf8 "targetType") = some (.string relation.target)
  inverse : json.member? (utf8 "inverse") =
    if relation.inverse = [] then none else some (.string relation.inverse)
  isArray : json.member? (utf8 "isArray") =
    if relation.isArray then some (.boolean true) else none
  isOptional : json.member? (utf8 "isOptional") =
    if relation.isOptional then some (.boolean true) else none

inductive DefaultValue.ShownAs : DefaultValue → Json → Prop
  | null : ShownAs .null .null
  | boolean (value : Bool) : ShownAs (.boolean value) (.boolean value)
  | number {value : Binary} {text : Text} : Binary.readDouble? text = some value →
      ShownAs (.number value) (.number text)
  | string (text : Text) : ShownAs (.string text) (.string text)
  | function (name : Text) : ShownAs (.function name) (.object [(utf8 "function", .string name)])
  | object : ShownAs .object (.object [])
  | array : ShownAs .array (.array [])

structure Field.ShownAs (field : Field) (json : Json) : Prop where
  members : json.HasMembers ["type", "modifier", "isArray", "isOptional", "isRequired", "isUnique",
    "isIndexed", "precision", "scale", "length", "defaultValue", "relation"]
  type : json.member? (utf8 "type") = some (.string field.type)
  modifier : json.member? (utf8 "modifier") = some (.string field.modifier)
  isArray : json.member? (utf8 "isArray") = some (.boolean field.isArray)
  isOptional : json.member? (utf8 "isOptional") = some (.boolean field.isOptional)
  isRequired : json.member? (utf8 "isRequired") = some (.boolean field.isRequired)
  isUnique : json.member? (utf8 "isUnique") = some (.boolean field.isUnique)
  isIndexed : json.member? (utf8 "isIndexed") = some (.boolean field.isIndexed)
  precision : json.member? (utf8 "precision") =
    field.precision.map fun number => .number (Text.ofInt number)
  scale : json.member? (utf8 "scale") =
    field.scale.map fun number => .number (Text.ofInt number)
  length : json.member? (utf8 "length") =
    field.length.map fun number => .number (Text.ofInt number)
  default : Option.Rel DefaultValue.ShownAs field.default (json.member? (utf8 "defaultValue"))
  relation : Option.Rel Relation.ShownAs field.relation (json.member? (utf8 "relation"))

structure Directives.ShownAs (directives : Directives) (json : Json) : Prop where
  members : json.HasMembers ["partitionBy", "index", "fts", "vector"]
  partitionBy : json.member? (utf8 "partitionBy") =
    if directives.partitionBy = [] then none else some (Json.ofTexts directives.partitionBy)
  index : json.member? (utf8 "index") =
    if directives.indexes = [] then none
    else some (.array (directives.indexes.map fun index =>
      .object [(utf8 "fields", Json.ofTexts index.fields),
        (utf8 "unique", .boolean index.isUnique)]))
  fullText : json.member? (utf8 "fts") =
    if directives.fullText = [] then none else some (Json.ofTexts directives.fullText)
  vector : json.member? (utf8 "vector") =
    if directives.vectors = [] then none
    else some (.array (directives.vectors.map fun vector =>
      .object [(utf8 "field", .string vector.field),
        (utf8 "dimensions", .number (Text.ofInt vector.dimensions))]))

/-- The object shows a schema, with the moments it was created and updated at or without them. -/
structure Schema.ShownAs (omitsMoments : Bool) (schema : Schema) (json : Json) : Prop where
  members : json.HasMembers ["name", "version", "fields", "relations", "directives", "createdAt",
    "updatedAt"]
  name : json.member? (utf8 "name") =
    if schema.name = [] then none else some (.string schema.name)
  version : json.member? (utf8 "version") = some (.number (Text.ofInt schema.version))
  fields : ∃ object, json.member? (utf8 "fields") = some object ∧
    schema.fields.ShownAs Field.ShownAs object
  relations : ∃ object, json.member? (utf8 "relations") = some object ∧
    schema.relations.ShownAs Relation.ShownAs object
  directives : ∃ object, json.member? (utf8 "directives") = some object ∧
    schema.directives.ShownAs object
  createdAt : json.member? (utf8 "createdAt") =
    if omitsMoments then none else some (.string schema.createdAt.render)
  updatedAt : json.member? (utf8 "updatedAt") =
    if omitsMoments then none else some (.string schema.updatedAt.render)

section Members

@[simp]
theorem utf8_inj {left right : String} : utf8 left = utf8 right ↔ left = right := by
  refine ⟨fun same => ?_, fun same => by rw [same]⟩
  simp only [utf8] at same
  exact String.toByteArray_inj.mp (ByteArray.ext (Array.toList_inj.mp same))

@[simp]
theorem utf8_beq (left right : String) : (utf8 left == utf8 right) = (left == right) := by
  rw [Bool.eq_iff_iff, beq_iff_eq, beq_iff_eq, utf8_inj]

theorem lookup_singleton (name : String) (value : Document) (key : Text) :
    [(utf8 name, value)].lookup key = if key = utf8 name then some value else none := by
  by_cases same : key = utf8 name
  · simp [same]
  · simp [List.lookup_cons, same, beq_false_of_ne same]

@[simp]
theorem lookup_memberUnless (isAbsent : Bool) (name : String) (value : Document) (key : Text) :
    (memberUnless isAbsent name value).lookup key =
      if isAbsent = false ∧ key = utf8 name then some value else none := by
  cases isAbsent with
  | true => rfl
  | false => simp [memberUnless, lookup_singleton]

@[simp]
theorem lookup_memberOfInt? (name : String) (value : Option Int) (key : Text) :
    (memberOfInt? name value).lookup key =
      if key = utf8 name then value.map .integer else none := by
  cases value with
  | none => simp [memberOfInt?]
  | some value => simp [memberOfInt?, lookup_singleton]

def Named (names : List String) (members : List (Text × Document)) : Prop :=
  (members.map Prod.fst).Sublist (names.map utf8)

theorem Named.append {names others : List String} {members more : List (Text × Document)}
    (left : Named names members) (right : Named others more) :
    Named (names ++ others) (members ++ more) := by
  rw [Named, List.map_append, List.map_append]
  exact List.Sublist.append left right

theorem named_memberUnless (isAbsent : Bool) (name : String) (value : Document) :
    Named [name] (memberUnless isAbsent name value) := by
  cases isAbsent with
  | true => exact List.nil_sublist _
  | false => exact List.Sublist.refl _

theorem named_memberOfInt? (name : String) (value : Option Int) :
    Named [name] (memberOfInt? name value) := by
  cases value with
  | none => exact List.nil_sublist _
  | some value => exact List.Sublist.refl _

theorem Named.hasMembers {names : List String} {members : List (Text × Document)} {json : Json}
    (named : Named names members) (written : (Document.map members).toJson = .ok json) :
    json.HasMembers names := by
  obtain ⟨pairs, rfl, same⟩ := Document.keys_toJson written
  exact ⟨pairs, rfl, same ▸ named⟩

end Members

theorem Relation.shownAs {relation : Relation} {json : Json}
    (written : relation.toDocument.toJson = .ok json) : relation.ShownAs json where
  members := by
    have fixed : Named ["operator", "targetType"] [(utf8 "operator", .string relation.operator),
      (utf8 "targetType", .string relation.target)] := List.Sublist.refl _
    exact (((fixed.append (named_memberUnless ..)).append (named_memberUnless ..)).append
      (named_memberUnless ..)).hasMembers written
  operator := Document.member?_eq written _ (by simp [Document.toJson])
  target := Document.member?_eq written _ (by simp [List.lookup_cons, Document.toJson])
  inverse := by
    refine Document.member?_eq written _ ?_
    by_cases empty : relation.inverse = [] <;>
      simp [List.lookup_append, List.lookup_cons, empty, Document.toJson]
  isArray := by
    refine Document.member?_eq written _ ?_
    cases relation.isArray <;> simp [List.lookup_append, List.lookup_cons, Document.toJson]
  isOptional := by
    refine Document.member?_eq written _ ?_
    cases relation.isOptional <;> simp [List.lookup_append, List.lookup_cons, Document.toJson]

theorem DefaultValue.shownAs {value : DefaultValue} {json : Json} (wellFormed : value.WellFormed)
    (written : value.toDocument.toJson = .ok json) : value.ShownAs json := by
  cases value with
  | unknown => exact wellFormed.elim
  | null =>
      obtain rfl := Except.ok.inj written
      exact .null
  | boolean value =>
      obtain rfl := Except.ok.inj written
      exact .boolean value
  | number value =>
      rw [toDocument, Document.toJson] at written
      split at written
      next =>
        obtain rfl := Except.ok.inj written
        exact .number (Binary.readDouble?_render_json wellFormed).2
      next => simp at written
  | string text =>
      obtain rfl := Except.ok.inj written
      exact .string text
  | function name =>
      obtain rfl := Except.ok.inj written
      exact .function name
  | object =>
      obtain rfl := Except.ok.inj written
      exact .object
  | array =>
      obtain rfl := Except.ok.inj written
      exact .array

theorem Field.WellFormed.default {field : Field} (wellFormed : field.WellFormed) :
    ∀ value ∈ field.default, value.WellFormed := by
  cases wellFormed with
  | relation => simp
  | typed _ _ defaults => exact defaults

theorem Field.shownAs {field : Field} {json : Json} (wellFormed : field.WellFormed)
    (written : field.toDocument.toJson = .ok json) : field.ShownAs json where
  members := by
    have fixed : Named ["type", "modifier", "isArray", "isOptional", "isRequired", "isUnique",
        "isIndexed"]
      [(utf8 "type", .string field.type), (utf8 "modifier", .string field.modifier),
        (utf8 "isArray", .boolean field.isArray), (utf8 "isOptional", .boolean field.isOptional),
        (utf8 "isRequired", .boolean field.isRequired), (utf8 "isUnique", .boolean field.isUnique),
        (utf8 "isIndexed", .boolean field.isIndexed)] := List.Sublist.refl _
    have numbers := ((fixed.append (named_memberOfInt? "precision" field.precision)).append
      (named_memberOfInt? "scale" field.scale)).append (named_memberOfInt? "length" field.length)
    refine ((numbers.append (?_ : Named ["defaultValue"] _)).append
      (?_ : Named ["relation"] _)).hasMembers written
    · cases field.default with
      | none => exact List.nil_sublist _
      | some value => exact List.Sublist.refl _
    · cases field.relation with
      | none => exact List.nil_sublist _
      | some relation => exact List.Sublist.refl _
  type := Document.member?_eq written _ (by simp [Document.toJson])
  modifier := Document.member?_eq written _ (by simp [List.lookup_cons, Document.toJson])
  isArray := Document.member?_eq written _ (by simp [List.lookup_cons, Document.toJson])
  isOptional := Document.member?_eq written _ (by simp [List.lookup_cons, Document.toJson])
  isRequired := Document.member?_eq written _ (by simp [List.lookup_cons, Document.toJson])
  isUnique := Document.member?_eq written _ (by simp [List.lookup_cons, Document.toJson])
  isIndexed := Document.member?_eq written _ (by simp [List.lookup_cons, Document.toJson])
  precision := by
    refine Document.member?_eq written _ ?_
    cases field.precision <;> cases field.default <;> cases field.relation <;>
      simp [List.lookup_append, List.lookup_cons, Document.toJson]
  scale := by
    refine Document.member?_eq written _ ?_
    cases field.scale <;> cases field.default <;> cases field.relation <;>
      simp [List.lookup_append, List.lookup_cons, Document.toJson]
  length := by
    refine Document.member?_eq written _ ?_
    cases field.length <;> cases field.default <;> cases field.relation <;>
      simp [List.lookup_append, List.lookup_cons, Document.toJson]
  default := by
    refine Document.member?_rel written DefaultValue.toDocument ?_ fun value member json shown => ?_
    · cases field.default <;> cases field.relation <;>
        simp [List.lookup_append, List.lookup_cons]
    · exact DefaultValue.shownAs (wellFormed.default value member) shown
  relation := by
    refine Document.member?_rel written Relation.toDocument ?_ fun relation _ json shown => ?_
    · cases field.default <;> cases field.relation <;>
        simp [List.lookup_append, List.lookup_cons]
    · exact Relation.shownAs shown

theorem textList_toJson (texts : List Text) :
    (textList texts).toJson = .ok (Json.ofTexts texts) :=
  Document.list_map_toJson (fun _ => rfl) texts

theorem Directives.shownAs {directives : Directives} {json : Json}
    (written : directives.toDocument.toJson = .ok json) : directives.ShownAs json where
  members := (((named_memberUnless ..).append (named_memberUnless ..)).append
    (named_memberUnless ..)).append (named_memberUnless ..) |>.hasMembers written
  partitionBy := by
    refine Document.member?_eq written _ ?_
    by_cases empty : directives.partitionBy = [] <;>
      simp [List.lookup_append, empty, textList_toJson]
  index := by
    have shape (index : Index) : (indexDocument index).toJson =
        .ok (.object [(utf8 "fields", Json.ofTexts index.fields),
          (utf8 "unique", .boolean index.isUnique)]) := by
      simp [indexDocument, Document.toJson, Document.membersToJson, textList_toJson, Except.map]
    refine Document.member?_eq written _ ?_
    by_cases empty : directives.indexes = [] <;>
      simp [List.lookup_append, empty, Document.list_map_toJson shape]
  fullText := by
    refine Document.member?_eq written _ ?_
    by_cases empty : directives.fullText = [] <;>
      simp [List.lookup_append, empty, textList_toJson]
  vector := by
    have shape (vector : Embedding) : (vectorDocument vector).toJson =
        .ok (.object [(utf8 "field", .string vector.field),
          (utf8 "dimensions", .number (Text.ofInt vector.dimensions))]) := by
      simp [vectorDocument, Document.toJson, Document.membersToJson, Except.map]
    refine Document.member?_eq written _ ?_
    by_cases empty : directives.vectors = [] <;>
      simp [List.lookup_append, empty, Document.list_map_toJson shape]

theorem OrderedMap.shownAs {α : Type} {map : OrderedMap α} {write : α → Document}
    {shown : α → Json → Prop} {json : Json} (distinct : map.keys.Nodup)
    (each : ∀ entry ∈ map.toList, ∀ json, (write entry.2).toJson = .ok json → shown entry.2 json)
    (written : (Document.table (map.toList.map fun entry => (entry.1, write entry.2))).toJson =
      .ok json) : map.ShownAs shown json := by
  rw [Document.toJson] at written
  obtain ⟨pairs, rfl, alike⟩ := Document.members_toJson written
  rw [List.forall₂_map_left_iff] at alike
  refine ⟨pairs, rfl, ?_, distinct, ?_⟩
  · rw [OrderedMap.keys_eq]
    clear each written distinct
    generalize map.toList = entries at alike ⊢
    induction alike with
    | nil => rfl
    | cons same _ ih => rw [List.map_cons, List.map_cons, ih, same.1]
  · exact forall₂_of_mem alike fun entry stored member same => each entry stored _ same.2

theorem Schema.shownAs {schema : Schema} {shows : Timestamp → Bool} {omits : Bool} {json : Json}
    (moments : ∀ moment, shows moment = !omits)
    (distinct : schema.fields.keys.Nodup ∧ schema.relations.keys.Nodup)
    (wellFormed : ∀ entry ∈ schema.fields.toList, entry.2.WellFormed)
    (written : (schema.toDocument shows).toJson = .ok json) : schema.ShownAs omits json where
  members := by
    have fixed (fields relations directives : Document) :
        Named ["version", "fields", "relations", "directives"]
          [(utf8 "version", .integer schema.version), (utf8 "fields", fields),
            (utf8 "relations", relations), (utf8 "directives", directives)] := List.Sublist.refl _
    exact ((((named_memberUnless ..).append (fixed _ _ _)).append (named_memberUnless ..)).append
      (named_memberUnless ..)).hasMembers written
  name := by
    refine Document.member?_eq written _ ?_
    by_cases empty : schema.name = [] <;>
      simp [List.lookup_append, List.lookup_cons, empty, Document.toJson]
  version := by
    refine Document.member?_eq written _ ?_
    simp [List.lookup_append, Document.toJson]
  fields := by
    obtain ⟨object, tableWritten, member⟩ := Document.exists_member written (utf8 "fields")
      (by simp [List.lookup_append, List.lookup_cons]; rfl)
    exact ⟨object, member, OrderedMap.shownAs distinct.1 (fun entry inside json written =>
      Field.shownAs (wellFormed entry inside) written) tableWritten⟩
  relations := by
    obtain ⟨object, tableWritten, member⟩ := Document.exists_member written (utf8 "relations")
      (by simp [List.lookup_append, List.lookup_cons]; rfl)
    exact ⟨object, member, OrderedMap.shownAs distinct.2 (fun entry inside json written =>
      Relation.shownAs written) tableWritten⟩
  directives := by
    obtain ⟨object, directivesWritten, member⟩ := Document.exists_member written (utf8 "directives")
      (by simp [List.lookup_append, List.lookup_cons]; rfl)
    exact ⟨object, member, Directives.shownAs directivesWritten⟩
  createdAt := Document.member?_moment written (by
    cases omits <;> simp [List.lookup_append, List.lookup_cons, moments])
  updatedAt := Document.member?_moment written (by
    cases omits <;> simp [List.lookup_append, List.lookup_cons, moments])

end EntitySchema
