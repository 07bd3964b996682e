import EntitySchema.Proofs.Expression.Blame
import EntitySchema.Proofs.Field.Acceptance
import EntitySchema.Proofs.OrderedMap
import EntitySchema.Proofs.Relation.Dispatch
import EntitySchema.Schema.Basic

/-!
A record and its schema. Every entry of the record has one role, and the schema holds the fields
and the relations of the record in record order, with nothing lost and nothing declared twice.
-/

namespace EntitySchema

open Expression

theorem TypeDenotes.baseName_ne_relation {lexemes : List Lexeme} {expr : TypeExpr}
    (denotes : TypeDenotes lexemes expr) : expr.baseName ≠ TypeName.relation := by
  have primitives : ∀ base ∈ TypeName.primitives, base ≠ TypeName.relation := by decide
  have decimal : TypeName.decimal ≠ TypeName.relation := by decide
  have sizes : ∀ base ∈ TypeName.sized, base ≠ TypeName.relation := by decide
  have map : utf8 "map" ≠ TypeName.relation := by decide
  have list : TypeName.list ≠ TypeName.relation := by decide
  have takers : ∀ base ∈ TypeName.nameTakers, base ≠ TypeName.relation := by decide
  cases denotes with
  | @primitive _ base _ isPrimitive =>
      have member : base ∈ TypeName.primitives := by simpa [TypeName.isPrimitive] using isPrimitive
      exact primitives base member
  | decimal => exact decimal
  | scaled => exact decimal
  | sized _ member => exact sizes _ member
  | map => exact map
  | list => exact list
  | named _ member => exact takers _ member

theorem FieldDenotes.type_ne_relation {lexemes : List Lexeme} {field : Field}
    (denotes : FieldDenotes lexemes field) (noRelation : field.relation = none) :
    field.type ≠ TypeName.relation := by
  cases denotes with
  | relation => simp at noRelation
  | typed denotes => exact denotes.baseName_ne_relation

theorem Field.parse_of_no_arrow {text : Text} {field : Field}
    (noArrow : Relation.isRelationText text = false) (parsed : Field.parse text = .ok field) :
    field.relation = none ∧ field.type ≠ TypeName.relation := by
  obtain ⟨_, _, denotes⟩ := Field.parse_eq_ok_iff.mp parsed
  rcases denotes.head with ⟨operator, rest, _, shape, kind, _⟩ | ⟨_, _, _, _, _, noRelation⟩
  · have arrow := (Relation.isRelationText_iff_lexemes text).mpr ⟨operator, rest, shape, kind⟩
    simp [noArrow] at arrow
  · exact ⟨noRelation, denotes.type_ne_relation noRelation⟩

namespace Schema

inductive Splits : List (Text × Value) → List (Text × Field) → List (Text × Relation) →
    List (Text × Value) → Prop
  | nil : Splits [] [] [] []
  | name {text : Text} {entries fields relations directives} :
      Splits entries fields relations directives →
      Splits ((Key.type, .string text) :: entries) fields relations directives
  | directive {key : Text} {value : Value} {entries fields relations directives} :
      key ≠ Key.type → Key.isDirective key = true →
      Splits entries fields relations directives →
      Splits ((key, value) :: entries) fields relations ((key, value) :: directives)
  | relation {key text : Text} {relation : Relation} {entries fields relations directives} :
      Key.isDirective key = false → Relation.isRelationText text = true →
      Relation.parse text = .ok relation → Splits entries fields relations directives →
      Splits ((key, .string text) :: entries) fields ((key, relation) :: relations) directives
  | field {key text : Text} {field : Field} {entries fields relations directives} :
      Key.isDirective key = false → Relation.isRelationText text = false →
      Field.parse text = .ok field → Splits entries fields relations directives →
      Splits ((key, .string text) :: entries) ((key, field) :: fields) relations directives

end Schema

namespace Declaration

inductive Declares : List (Text × Value) → List Declaration → Prop
  | nil : Declares [] []
  | name {text : Text} {entries declarations} : Declares entries declarations →
      Declares ((Key.type, .string text) :: entries) declarations
  | directive {key : Text} {value : Value} {entries declarations} : key ≠ Key.type →
      Key.isDirective key = true → Declares entries declarations →
      Declares ((key, value) :: entries) (.directive key value :: declarations)
  | expression {key text : Text} {entries declarations} : Key.isDirective key = false →
      Declares entries declarations →
      Declares ((key, .string text) :: entries) (ofExpression key text :: declarations)

theorem classifyFrom_eq_ok {schemaName name : Text} {done declarations : List Declaration}
    {entries : List (Text × Value)}
    (classified : classifyFrom schemaName done entries = .ok (name, declarations)) :
    ∃ added, declarations = done.reverse ++ added ∧ Declares entries added := by
  fun_induction classifyFrom schemaName done entries with
  | case1 schemaName done =>
      simp only [Except.ok.injEq, Prod.mk.injEq] at classified
      exact ⟨[], by simp [classified.2], .nil⟩
  | case2 schemaName done entries text ih =>
      obtain ⟨added, rfl, declares⟩ := ih classified
      exact ⟨added, rfl, .name declares⟩
  | case3 => simp at classified
  | case4 => simp at classified
  | case5 schemaName done key value entries notType declaration found ih =>
      obtain ⟨added, rfl, declares⟩ := ih classified
      refine ⟨declaration :: added, by simp, ?_⟩
      unfold ofEntry at found
      split at found
      next isDirective =>
        cases found
        exact .directive notType isDirective declares
      next noDirective =>
        split at found
        · cases found
          exact .expression (by simpa using noDirective) declares
        · simp at found

theorem classifyFrom_name {schemaName name : Text} {done declarations : List Declaration}
    {entries : List (Text × Value)} (distinct : (entries.map Prod.fst).Nodup)
    (classified : classifyFrom schemaName done entries = .ok (name, declarations)) :
    Key.type ∉ entries.map Prod.fst ∧ name = schemaName ∨ (Key.type, .string name) ∈ entries := by
  fun_induction classifyFrom schemaName done entries with
  | case1 schemaName done =>
      simp only [Except.ok.injEq, Prod.mk.injEq] at classified
      exact Or.inl ⟨by simp, classified.1.symm⟩
  | case2 schemaName done entries text ih =>
      rw [List.map_cons, List.nodup_cons] at distinct
      right
      rcases ih distinct.2 classified with ⟨_, rfl⟩ | later
      · exact List.mem_cons_self
      · exact List.mem_cons_of_mem _ later
  | case3 => simp at classified
  | case4 => simp at classified
  | case5 schemaName done key value entries notType declaration found ih =>
      rw [List.map_cons, List.nodup_cons] at distinct
      rcases ih distinct.2 classified with ⟨absent, rfl⟩ | later
      · exact Or.inl ⟨by simpa [absent] using fun same => notType same.symm, rfl⟩
      · exact Or.inr (List.mem_cons_of_mem _ later)

end Declaration

namespace Schema

namespace Assembly

def Covered (assembly : Assembly) : Prop :=
  ∀ key ∈ assembly.fields.keys ++ assembly.relations.keys ++ assembly.directives.keys,
    key ∈ assembly.seen

structure Extends (assembly : Assembly) (fields : List (Text × Field))
    (relations : List (Text × Relation)) (directives : List (Text × Value))
    (result : Assembly) : Prop where
  fields : result.fields.toList = assembly.fields.toList ++ fields
  relations : result.relations.toList = assembly.relations.toList ++ relations
  directives : result.directives.toList = assembly.directives.toList ++ directives

theorem Extends.trans {first second third : Assembly} {fields moreFields : List (Text × Field)}
    {relations moreRelations : List (Text × Relation)}
    {directives moreDirectives : List (Text × Value)}
    (left : first.Extends fields relations directives second)
    (right : second.Extends moreFields moreRelations moreDirectives third) :
    first.Extends (fields ++ moreFields) (relations ++ moreRelations)
      (directives ++ moreDirectives) third where
  fields := by rw [right.fields, left.fields, List.append_assoc]
  relations := by rw [right.relations, left.relations, List.append_assoc]
  directives := by rw [right.directives, left.directives, List.append_assoc]

theorem Covered.of_extends {assembly next : Assembly} {key : Text}
    {fields : List (Text × Field)} {relations : List (Text × Relation)}
    {directives : List (Text × Value)} (covered : assembly.Covered)
    (extended : assembly.Extends fields relations directives next)
    (seen : next.seen = key :: assembly.seen)
    (new : ∀ name ∈ fields.map Prod.fst ++ relations.map Prod.fst ++ directives.map Prod.fst,
      name = key) : next.Covered := by
  intro name member
  have stored : name ∈ assembly.fields.keys ++ assembly.relations.keys ++ assembly.directives.keys ∨
      name ∈ fields.map Prod.fst ++ relations.map Prod.fst ++ directives.map Prod.fst := by
    simp only [OrderedMap.keys_eq, extended.fields, extended.relations, extended.directives,
      List.map_append, List.mem_append] at member ⊢
    tauto
  rw [seen]
  rcases stored with old | added
  · exact List.mem_cons_of_mem _ (covered name old)
  · simp [new name added]

section Step

variable {assembly : Assembly} {name : Text}

theorem add_directive (covered : assembly.Covered) (fresh : name ∉ assembly.seen)
    (value : Value) :
    ∃ next, assembly.add (.directive name value) = .ok next ∧ next.seen = name :: assembly.seen ∧
      assembly.Extends [] [] [(name, value)] next := by
  have absent : name ∉ assembly.directives.keys := fun stored =>
    fresh (covered name (by simp [stored]))
  refine ⟨_, by simp [add, Declaration.name, fresh]; rfl, rfl, ?_⟩
  exact ⟨by simp, by simp, OrderedMap.toList_set_of_notMem absent⟩

theorem add_relation (covered : assembly.Covered) (fresh : name ∉ assembly.seen)
    {expression : Text} {relation : Relation} (parsed : Relation.parse expression = .ok relation) :
    ∃ next, assembly.add (.relation name expression) = .ok next ∧
      next.seen = name :: assembly.seen ∧ assembly.Extends [] [(name, relation)] [] next := by
  have absent : name ∉ assembly.relations.keys := fun stored =>
    fresh (covered name (by simp [stored]))
  refine ⟨_, by simp [add, Declaration.name, fresh, parsed]; rfl, rfl, ?_⟩
  exact ⟨by simp, OrderedMap.toList_set_of_notMem absent, by simp⟩

theorem add_field (covered : assembly.Covered) (fresh : name ∉ assembly.seen)
    {expression : Text} {field : Field} (parsed : Field.parse expression = .ok field) :
    ∃ next, assembly.add (.field name expression) = .ok next ∧
      next.seen = name :: assembly.seen ∧ assembly.Extends [(name, field)] [] [] next := by
  have absent : name ∉ assembly.fields.keys := fun stored =>
    fresh (covered name (by simp [stored]))
  refine ⟨_, by simp [add, Declaration.name, fresh, parsed]; rfl, rfl, ?_⟩
  exact ⟨OrderedMap.toList_set_of_notMem absent, by simp, by simp⟩

/-- What comes of an expression under a fresh key: what its reader makes of it, under that key. -/
inductive AddsExpression (assembly : Assembly) (key text : Text) :
    Except ParseError Assembly → Prop
  | relation {relation : Relation} {next : Assembly} :
      Relation.isRelationText text = true → Relation.parse text = .ok relation →
      next.seen = key :: assembly.seen → assembly.Extends [] [(key, relation)] [] next →
      AddsExpression assembly key text (.ok next)
  | field {field : Field} {next : Assembly} :
      Relation.isRelationText text = false → Field.parse text = .ok field →
      next.seen = key :: assembly.seen → assembly.Extends [(key, field)] [] [] next →
      AddsExpression assembly key text (.ok next)
  | noRelation {error : ParseError} :
      Relation.isRelationText text = true → Relation.parse text = .error error →
      AddsExpression assembly key text (.error (error.withField key))
  | noField {error : ParseError} :
      Relation.isRelationText text = false → Field.parse text = .error error →
      AddsExpression assembly key text (.error (error.withField key))

theorem addsExpression (covered : assembly.Covered) (fresh : name ∉ assembly.seen) (text : Text) :
    assembly.AddsExpression name text (assembly.add (.ofExpression name text)) := by
  cases isRelation : Relation.isRelationText text with
  | true =>
      rw [Declaration.ofExpression, if_pos isRelation]
      cases parsed : Relation.parse text with
      | error error =>
          have refused : assembly.add (.relation name text) = .error (error.withField name) := by
            simp [add, Declaration.name, fresh, parsed]
          rw [refused]
          exact .noRelation isRelation parsed
      | ok relation =>
          obtain ⟨next, added, seen, first⟩ := add_relation covered fresh parsed
          rw [added]
          exact .relation isRelation parsed seen first
  | false =>
      rw [Declaration.ofExpression, if_neg (by simp [isRelation])]
      cases parsed : Field.parse text with
      | error error =>
          have refused : assembly.add (.field name text) = .error (error.withField name) := by
            simp [add, Declaration.name, fresh, parsed]
          rw [refused]
          exact .noField isRelation parsed
      | ok field =>
          obtain ⟨next, added, seen, first⟩ := add_field covered fresh parsed
          rw [added]
          exact .field isRelation parsed seen first

end Step

def Outcome (assembly : Assembly) (entries : List (Text × Value)) :
    Except ParseError Assembly → Prop
  | .ok result => ∃ fields relations directives, Splits entries fields relations directives ∧
      assembly.Extends fields relations directives result
  | .error error => error.kind ≠ .invalidRecord

theorem fresh_next {assembly next : Assembly} {key : Text} {keys : List Text}
    (other : key ∉ keys) (seen : next.seen = key :: assembly.seen)
    (fresh : ∀ name ∈ key :: keys, name ∉ assembly.seen) : ∀ name ∈ keys, name ∉ next.seen := by
  intro name member
  rw [seen, List.mem_cons, not_or]
  exact ⟨fun same => other (same ▸ member), fresh name (List.mem_cons_of_mem _ member)⟩

theorem Outcome.step {assembly next : Assembly} {declaration : Declaration}
    {declarations : List Declaration} {entry : Text × Value} {entries : List (Text × Value)}
    {field : List (Text × Field)} {relation : List (Text × Relation)}
    {directive : List (Text × Value)} (added : assembly.add declaration = .ok next)
    (first : assembly.Extends field relation directive next)
    (splits : ∀ {fields relations directives}, Splits entries fields relations directives →
      Splits (entry :: entries) (field ++ fields) (relation ++ relations) (directive ++ directives))
    (later : next.Outcome entries (next.addAll declarations)) :
    assembly.Outcome (entry :: entries) (assembly.addAll (declaration :: declarations)) := by
  rw [addAll, added]
  dsimp only
  cases run : next.addAll declarations with
  | error error =>
      rw [run] at later
      exact later
  | ok result =>
      rw [run] at later
      obtain ⟨fields, relations, directives, split, extended⟩ := later
      exact ⟨_, _, _, splits split, first.trans extended⟩

/-- Entries with distinct keys declare no name twice, so a run fails only in an expression. -/
theorem addAll_outcome {entries : List (Text × Value)} {declarations : List Declaration}
    (declares : Declaration.Declares entries declarations) {assembly : Assembly}
    (covered : assembly.Covered) (distinct : (entries.map Prod.fst).Nodup)
    (fresh : ∀ key ∈ entries.map Prod.fst, key ∉ assembly.seen) :
    assembly.Outcome entries (assembly.addAll declarations) := by
  induction declares generalizing assembly with
  | nil => exact ⟨[], [], [], .nil, by simp, by simp, by simp⟩
  | @name text entries declarations declares ih =>
      rw [List.map_cons, List.nodup_cons] at distinct
      have later := ih covered distinct.2 fun key member => fresh key (by simp [member])
      cases run : assembly.addAll declarations with
      | error error =>
          rw [run] at later
          exact later
      | ok result =>
          rw [run] at later
          obtain ⟨fields, relations, directives, splits, extended⟩ := later
          exact ⟨fields, relations, directives, .name splits, extended⟩
  | @directive key value entries declarations notType isDirective declares ih =>
      rw [List.map_cons, List.nodup_cons] at distinct
      obtain ⟨next, added, seen, first⟩ := add_directive covered (fresh key (by simp)) value
      refine Outcome.step added first (.directive notType isDirective) ?_
      refine ih (covered.of_extends first seen (by simp)) distinct.2 ?_
      exact fresh_next distinct.1 seen fresh
  | @expression key text entries declarations noDirective declares ih =>
      rw [List.map_cons, List.nodup_cons] at distinct
      have adds := addsExpression covered (fresh key (by simp)) text
      generalize added : assembly.add (.ofExpression key text) = result at adds
      cases adds with
      | relation isRelation parsed seen first =>
          refine Outcome.step added first (.relation noDirective isRelation parsed) ?_
          refine ih (covered.of_extends first seen (by simp)) distinct.2 ?_
          exact fresh_next distinct.1 seen fresh
      | field isField parsed seen first =>
          refine Outcome.step added first (.field noDirective isField parsed) ?_
          refine ih (covered.of_extends first seen (by simp)) distinct.2 ?_
          exact fresh_next distinct.1 seen fresh
      | noRelation _ parsed =>
          rw [addAll, added]
          have kind := Relation.parse_error_kind parsed
          exact kind
      | noField _ parsed =>
          rw [addAll, added]
          have kind := Field.parse_error_kind parsed
          exact kind

end Assembly

namespace Splits

variable {entries : List (Text × Value)} {fields : List (Text × Field)}
  {relations : List (Text × Relation)} {directives : List (Text × Value)}

theorem fields_sublist (splits : Splits entries fields relations directives) :
    (fields.map Prod.fst).Sublist (entries.map Prod.fst) := by
  induction splits with
  | nil => exact .slnil
  | name _ ih => exact ih.cons _
  | directive _ _ _ ih => exact ih.cons _
  | relation _ _ _ _ ih => exact ih.cons _
  | field _ _ _ _ ih => exact ih.cons_cons _

theorem relations_sublist (splits : Splits entries fields relations directives) :
    (relations.map Prod.fst).Sublist (entries.map Prod.fst) := by
  induction splits with
  | nil => exact .slnil
  | name _ ih => exact ih.cons _
  | directive _ _ _ ih => exact ih.cons _
  | relation _ _ _ _ ih => exact ih.cons_cons _
  | field _ _ _ _ ih => exact ih.cons _

theorem keys_perm (splits : Splits entries fields relations directives) :
    (fields.map Prod.fst ++ relations.map Prod.fst).Perm
      ((entries.map Prod.fst).filter fun key => !Key.isDirective key) := by
  have typeKey : Key.isDirective Key.type = true := by decide
  induction splits with
  | nil => exact .refl _
  | name _ ih => simpa [typeKey] using ih
  | directive _ isDirective _ ih => simpa [isDirective] using ih
  | relation noDirective _ _ _ ih =>
      simp only [List.map_cons, noDirective, Bool.not_false, List.filter_cons_of_pos]
      exact List.perm_middle.trans (ih.cons _)
  | field noDirective _ _ _ ih =>
      simp only [List.map_cons, noDirective, Bool.not_false, List.filter_cons_of_pos,
        List.cons_append]
      exact ih.cons _

theorem mem_cases (splits : Splits entries fields relations directives) {key : Text}
    {value : Value} (member : (key, value) ∈ entries) (noDirective : Key.isDirective key = false) :
    ∃ text, value = .string text ∧
      (Relation.isRelationText text = true ∧
        (∃ relation, (key, relation) ∈ relations ∧ Relation.parse text = .ok relation) ∨
      Relation.isRelationText text = false ∧
        ∃ field, (key, field) ∈ fields ∧ Field.parse text = .ok field) := by
  have typeKey : Key.isDirective Key.type = true := by decide
  induction splits with
  | nil => simp at member
  | name _ ih =>
      rcases List.mem_cons.mp member with same | member
      · simp [(Prod.mk.inj same).1, typeKey] at noDirective
      · exact ih member
  | directive _ isDirective _ ih =>
      rcases List.mem_cons.mp member with same | member
      · simp [(Prod.mk.inj same).1, isDirective] at noDirective
      · exact ih member
  | @relation _ text relation _ _ _ _ _ isRelation parsed _ ih =>
      rcases List.mem_cons.mp member with same | member
      · obtain ⟨rfl, rfl⟩ := Prod.mk.inj same
        exact ⟨text, rfl, Or.inl ⟨isRelation, relation, by simp, parsed⟩⟩
      · obtain ⟨text, rfl, ⟨isRelation, relation, inside, parsed⟩ | other⟩ := ih member
        · exact ⟨text, rfl, Or.inl ⟨isRelation, relation, by simp [inside], parsed⟩⟩
        · exact ⟨text, rfl, Or.inr other⟩
  | @field _ text field _ _ _ _ _ isField parsed _ ih =>
      rcases List.mem_cons.mp member with same | member
      · obtain ⟨rfl, rfl⟩ := Prod.mk.inj same
        exact ⟨text, rfl, Or.inr ⟨isField, field, by simp, parsed⟩⟩
      · obtain ⟨text, rfl, other | ⟨isField, field, inside, parsed⟩⟩ := ih member
        · exact ⟨text, rfl, Or.inl other⟩
        · exact ⟨text, rfl, Or.inr ⟨isField, field, by simp [inside], parsed⟩⟩

end Splits

end Schema

namespace Directives

theorem add_of_other {key : Text} (other : Key.isDirective key = false ∨ key = Key.type)
    (directives : Directives) (value : Value) : directives.add key value = directives := by
  have different : ∀ known ∈ [Key.partitionBy, Key.index, Key.fullText, Key.vector],
      Key.isDirective known = true ∧ known ≠ Key.type := by decide
  have unknown : ∀ known ∈ [Key.partitionBy, Key.index, Key.fullText, Key.vector],
      key ≠ known := by
    rintro known member rfl
    rcases other with noDirective | same
    · simp [(different key member).1] at noDirective
    · exact (different key member).2 same
  simp only [List.forall_mem_cons, List.not_mem_nil, false_implies, implies_true, and_true]
    at unknown
  obtain ⟨notPartition, notIndex, notFullText, notVector⟩ := unknown
  simp [add, notPartition, notIndex, notFullText, notVector]

theorem foldl_of_splits {entries directives : List (Text × Value)} {fields : List (Text × Field)}
    {relations : List (Text × Relation)}
    (splits : Schema.Splits entries fields relations directives) (start : Directives) :
    directives.foldl (fun found entry => found.add entry.1 entry.2) start =
      entries.foldl (fun found entry => found.add entry.1 entry.2) start := by
  induction splits generalizing start with
  | nil => rfl
  | name _ ih => rw [List.foldl_cons, add_of_other (Or.inr rfl), ih]
  | directive _ _ _ ih => rw [List.foldl_cons, List.foldl_cons, ih]
  | relation noDirective _ _ _ ih =>
      rw [List.foldl_cons, add_of_other (Or.inl noDirective), ih]
  | field noDirective _ _ _ ih => rw [List.foldl_cons, add_of_other (Or.inl noDirective), ih]

end Directives

theorem Declaration.classify_error {record : Record} {error : ParseError}
    (failed : classify record = .error error) : error.cause ≠ .repeatedDeclaration := by
  have run : ∀ (entries : List (Text × Value)) (schemaName : Text) (done : List Declaration),
      classifyFrom schemaName done entries = .error error →
        error.cause ≠ .repeatedDeclaration := by
    intro entries schemaName done failed
    fun_induction classifyFrom schemaName done entries with
    | case1 => simp at failed
    | case2 _ _ _ _ ih => exact ih failed
    | case3 =>
        cases failed
        simp
    | case4 _ _ _ _ _ _ error found =>
        cases failed
        unfold ofEntry at found
        split at found
        · simp at found
        · split at found
          · simp at found
          · cases found
            simp
    | case5 _ _ _ _ _ _ _ _ ih => exact ih failed
  exact run _ _ _ failed

namespace Schema

/-- The schema holds every entry of the record that is no directive, as a field or a relation. -/
structure Partitions (record : Record) (schema : Schema) : Prop where
  name : record.get? Key.type = some (.string schema.name) ∨
    record.get? Key.type = none ∧ schema.name = []
  distinct : (schema.fields.keys ++ schema.relations.keys).Nodup
  complete : (schema.fields.keys ++ schema.relations.keys).Perm
    (record.keys.filter fun key => !Key.isDirective key)
  fieldOrder : schema.fields.keys.Sublist record.keys
  relationOrder : schema.relations.keys.Sublist record.keys
  /-- The arrow decides where an entry goes, and what is stored is what its expression says. -/
  declared : ∀ key ∈ record.keys, Key.isDirective key = false →
    ∃ text, record.get? key = some (.string text) ∧
      (key ∈ schema.relations.keys ↔ Relation.StartsWithArrow text) ∧
      (key ∈ schema.relations.keys → ∃ relation, schema.relations.get? key = some relation ∧
        Relation.parse text = .ok relation) ∧
      (key ∉ schema.relations.keys → ∃ field, schema.fields.get? key = some field ∧
        Field.parse text = .ok field ∧ field.relation = none ∧ field.type ≠ TypeName.relation)
  directives : schema.directives = Directives.ofRecord record
  version : schema.version = 1
  timestamps : schema.createdAt = schema.updatedAt

theorem partitions_of_splits {now : Timestamp} {record : Record} {name : Text}
    {assembly : Assembly} {fields : List (Text × Field)} {relations : List (Text × Relation)}
    {directives : List (Text × Value)} (distinct : record.keys.Nodup)
    (named : record.get? Key.type = some (.string name) ∨
      record.get? Key.type = none ∧ name = [])
    (splits : Splits record.toList fields relations directives)
    (extended : Assembly.Extends {} fields relations directives assembly) :
    Partitions record
      { name := name, fields := assembly.fields, relations := assembly.relations,
        directives := Directives.ofRecord assembly.directives, createdAt := now,
        updatedAt := now } := by
  have fieldsEq : assembly.fields.toList = fields := extended.fields
  have relationsEq : assembly.relations.toList = relations := extended.relations
  have directivesEq : assembly.directives.toList = directives := extended.directives
  have fieldKeys : assembly.fields.keys = fields.map Prod.fst := by
    rw [OrderedMap.keys_eq, fieldsEq]
  have relationKeys : assembly.relations.keys = relations.map Prod.fst := by
    rw [OrderedMap.keys_eq, relationsEq]
  have perm : (assembly.fields.keys ++ assembly.relations.keys).Perm
      (record.keys.filter fun key => !Key.isDirective key) := by
    rw [fieldKeys, relationKeys, OrderedMap.keys_eq record]
    exact splits.keys_perm
  have apart : (assembly.fields.keys ++ assembly.relations.keys).Nodup :=
    perm.nodup_iff.mpr (distinct.filter _)
  obtain ⟨fieldsNodup, relationsNodup, disjoint⟩ := List.nodup_append.mp apart
  refine ⟨named, apart, perm, ?_, ?_, ?_, ?_, rfl, rfl⟩
  · rw [fieldKeys, OrderedMap.keys_eq record]
    exact splits.fields_sublist
  · rw [relationKeys, OrderedMap.keys_eq record]
    exact splits.relations_sublist
  · intro key member noDirective
    rw [OrderedMap.keys_eq, List.mem_map] at member
    obtain ⟨⟨_, value⟩, inside, rfl⟩ := member
    obtain ⟨text, rfl, ⟨isRelation, relation, stored, parsed⟩ |
      ⟨isField, field, stored, parsed⟩⟩ := splits.mem_cases inside noDirective
    · have known : _ ∈ assembly.relations.keys :=
        relationKeys ▸ List.mem_map_of_mem stored
      refine ⟨text, OrderedMap.get?_eq_some_of_mem distinct inside, ?_, ?_, ?_⟩
      · exact iff_of_true known ((Relation.isRelationText_iff text).mp isRelation)
      · exact fun _ => ⟨relation, OrderedMap.get?_eq_some_of_mem relationsNodup
          (relationsEq ▸ stored), parsed⟩
      · exact fun absent => absurd known absent
    · have known : _ ∈ assembly.fields.keys := fieldKeys ▸ List.mem_map_of_mem stored
      have elsewhere := fun other => disjoint _ known _ other rfl
      refine ⟨text, OrderedMap.get?_eq_some_of_mem distinct inside, ?_, ?_, ?_⟩
      · refine iff_of_false elsewhere fun arrow => ?_
        simp [(Relation.isRelationText_iff text).mpr arrow] at isField
      · exact fun other => absurd other elsewhere
      · exact fun _ => ⟨field, OrderedMap.get?_eq_some_of_mem fieldsNodup (fieldsEq ▸ stored),
          parsed, Field.parse_of_no_arrow isField parsed⟩
  · change Directives.ofRecord assembly.directives = Directives.ofRecord record
    rw [Directives.ofRecord, Directives.ofRecord, directivesEq]
    exact Directives.foldl_of_splits splits {}

/--
Assembling a record with distinct keys gives a schema that partitions its entries, or fails, but
never because a name is declared twice.
-/
theorem ofRecord_partitions (now : Timestamp) (record : Record) (distinct : record.keys.Nodup) :
    (∀ schema, ofRecord now record = .ok schema → schema.Partitions record) ∧
      ∀ error, ofRecord now record = .error error → error.cause ≠ .repeatedDeclaration := by
  have keysEq := OrderedMap.keys_eq record
  cases classified : Declaration.classify record with
  | error error =>
      refine ⟨by simp [ofRecord, classified], ?_⟩
      intro other failed
      simp only [ofRecord, classified, Except.error.injEq] at failed
      exact failed ▸ Declaration.classify_error classified
  | ok found =>
      obtain ⟨name, declarations⟩ := found
      obtain ⟨added, same, declares⟩ := Declaration.classifyFrom_eq_ok classified
      rw [List.reverse_nil, List.nil_append] at same
      subst same
      have named := Declaration.classifyFrom_name (keysEq ▸ distinct) classified
      have outcome : Assembly.Outcome {} record.toList (Assembly.addAll {} declarations) :=
        Assembly.addAll_outcome declares (by simp [Assembly.Covered, OrderedMap.keys])
          (keysEq ▸ distinct) (by simp)
      simp only [ofRecord, classified, ofDeclarations]
      cases run : Assembly.addAll {} declarations with
      | error error =>
          rw [run] at outcome
          refine ⟨by simp, ?_⟩
          rintro _ ⟨⟩ repeated
          exact outcome (by simp [ParseError.kind, repeated, Cause.kind])
      | ok assembly =>
          rw [run] at outcome
          obtain ⟨fields, relations, directives, splits, extended⟩ := outcome
          refine ⟨?_, by simp⟩
          rintro _ ⟨⟩
          refine partitions_of_splits distinct ?_ splits extended
          rcases named with ⟨absent, rfl⟩ | present
          · exact Or.inr ⟨OrderedMap.get?_eq_none_of_notMem (keysEq ▸ absent), rfl⟩
          · exact Or.inl (OrderedMap.get?_eq_some_of_mem distinct present)

def postRecord : Record := OrderedMap.ofList
  [(Key.type, .string (utf8 "Post")), (utf8 "title", .string (utf8 "string!")),
    (utf8 "author", .string (utf8 " -> User.posts"))]

theorem ofRecord_partitions_post :
    postRecord.keys.Nodup ∧ ∃ schema, ofRecord Timestamp.zero postRecord = .ok schema ∧
      schema.Partitions postRecord := by
  have distinct : postRecord.keys.Nodup := by decide
  have accepted : (ofRecord Timestamp.zero postRecord).isOk = true := by decide +kernel
  refine ⟨distinct, ?_⟩
  cases found : ofRecord Timestamp.zero postRecord with
  | error error => simp [found, Except.isOk, Except.toBool] at accepted
  | ok schema =>
      exact ⟨schema, rfl, (ofRecord_partitions Timestamp.zero postRecord distinct).1 schema found⟩

end Schema

end EntitySchema
