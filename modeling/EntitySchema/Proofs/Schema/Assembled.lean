import EntitySchema.Proofs.Field.Parsed
import EntitySchema.Proofs.Schema.Partition

/-!
What an assembled schema holds. A run over declarations that succeeds has met no name twice, so the
entries of the record split into its fields, relations and directives, and every field and every
relation was read from an expression of its own.
-/

namespace EntitySchema

namespace Declaration

theorem name_ofExpression (key text : Text) : (ofExpression key text).name = key := by
  unfold ofExpression
  split <;> rfl

def Classifies (entries : List (Text × Value)) : Prop :=
  ∀ schemaName done, ∃ name declarations,
    classifyFrom schemaName done entries = .ok (name, done.reverse ++ declarations) ∧
      Declares entries declarations

theorem Classifies.cons {entries : List (Text × Value)} {key : Text} {value : Value}
    {declaration : Declaration} (classifies : Classifies entries) (notType : key ≠ Key.type)
    (role : ofEntry key value = .ok declaration)
    (declares : ∀ {declarations}, Declares entries declarations →
      Declares ((key, value) :: entries) (declaration :: declarations)) :
    Classifies ((key, value) :: entries) := by
  intro schemaName done
  obtain ⟨name, declarations, classified, rest⟩ := classifies schemaName (declaration :: done)
  exact ⟨name, _, by simp [classifyFrom, notType, role, classified], declares rest⟩

theorem Classifies.expression {entries : List (Text × Value)} {key text : Text}
    (classifies : Classifies entries) (noDirective : Key.isDirective key = false) :
    Classifies ((key, .string text) :: entries) := by
  have notType : key ≠ Key.type := by
    rintro rfl
    exact absurd noDirective (by decide)
  exact classifies.cons notType (by simp [ofEntry, noDirective]) (.expression noDirective)

end Declaration

namespace Schema

namespace Assembly

theorem notMem_seen_of_add {assembly next : Assembly} {declaration : Declaration}
    (added : assembly.add declaration = .ok next) : declaration.name ∉ assembly.seen := by
  intro known
  simp [add, known] at added

theorem notMem_seen_of_add_expression {assembly next : Assembly} {key text : Text}
    (added : assembly.add (.ofExpression key text) = .ok next) : key ∉ assembly.seen := by
  have fresh := notMem_seen_of_add added
  rwa [Declaration.name_ofExpression] at fresh

theorem addAll_cons_eq_ok {assembly result : Assembly} {declaration : Declaration}
    {declarations : List Declaration}
    (run : assembly.addAll (declaration :: declarations) = .ok result) :
    ∃ next, assembly.add declaration = .ok next ∧ next.addAll declarations = .ok result := by
  rw [addAll] at run
  cases added : assembly.add declaration with
  | error error => simp [added] at run
  | ok next => exact ⟨next, rfl, by simpa [added] using run⟩

theorem Extends.step {assembly next : Assembly} {declaration : Declaration}
    {declarations : List Declaration} {field fields : List (Text × Field)}
    {relation relations : List (Text × Relation)} {directive directives : List (Text × Value)}
    (first : assembly.Extends field relation directive next)
    (added : assembly.add declaration = .ok next)
    (later : ∃ result, next.addAll declarations = .ok result ∧
      next.Extends fields relations directives result) :
    ∃ result, assembly.addAll (declaration :: declarations) = .ok result ∧
      assembly.Extends (field ++ fields) (relation ++ relations) (directive ++ directives)
        result := by
  obtain ⟨result, run, extended⟩ := later
  exact ⟨result, by rw [addAll, added]; exact run, first.trans extended⟩

theorem outcome_of_ok {entries : List (Text × Value)} {declarations : List Declaration}
    (declares : Declaration.Declares entries declarations) {assembly result : Assembly}
    (covered : assembly.Covered) (run : assembly.addAll declarations = .ok result) :
    assembly.Outcome entries (assembly.addAll declarations) := by
  induction declares generalizing assembly with
  | nil => exact ⟨[], [], [], .nil, by simp, by simp, by simp⟩
  | name _ ih =>
      have later := ih covered run
      rw [run] at later ⊢
      obtain ⟨fields, relations, directives, splits, extended⟩ := later
      exact ⟨fields, relations, directives, .name splits, extended⟩
  | @directive key value _ _ notType isDirective _ ih =>
      obtain ⟨next, added, rest⟩ := addAll_cons_eq_ok run
      obtain ⟨stored, same, seen, first⟩ :=
        add_directive covered (notMem_seen_of_add added) value
      obtain rfl := Except.ok.inj (added.symm.trans same)
      exact Outcome.step added first (.directive notType isDirective)
        (ih (covered.of_extends first seen (by simp)) rest)
  | @expression key text _ _ noDirective _ ih =>
      obtain ⟨next, added, rest⟩ := addAll_cons_eq_ok run
      have adds := addsExpression covered (notMem_seen_of_add_expression added) text
      rw [added] at adds
      cases adds with
      | relation isRelation parsed seen first =>
          exact Outcome.step added first (.relation noDirective isRelation parsed)
            (ih (covered.of_extends first seen (by simp)) rest)
      | field isField parsed seen first =>
          exact Outcome.step added first (.field noDirective isField parsed)
            (ih (covered.of_extends first seen (by simp)) rest)

end Assembly

structure Assembled (record : Record) (schema : Schema) : Prop where
  splits : ∃ directives,
    Splits record.toList schema.fields.toList schema.relations.toList directives
  directives : schema.directives = Directives.ofRecord record
  version : schema.version = 1

/-- A schema is what a run over the declarations of its record has come to. -/
theorem exists_run_of_ofRecord {now : Timestamp} {record : Record} {schema : Schema}
    (accepted : ofRecord now record = .ok schema) :
    ∃ name declarations assembly, Declaration.classify record = .ok (name, declarations) ∧
      Assembly.addAll {} declarations = .ok assembly ∧
      schema = { name := name, fields := assembly.fields, relations := assembly.relations,
                 directives := Directives.ofRecord assembly.directives, createdAt := now,
                 updatedAt := now } := by
  unfold ofRecord at accepted
  cases classified : Declaration.classify record with
  | error error => simp [classified] at accepted
  | ok found =>
      obtain ⟨name, declarations⟩ := found
      simp only [classified, ofDeclarations] at accepted
      cases run : Assembly.addAll {} declarations with
      | error error => simp [run] at accepted
      | ok assembly =>
          rw [run] at accepted
          exact ⟨name, declarations, assembly, rfl, run, (Except.ok.inj accepted).symm⟩

theorem assembled_of_ofRecord {now : Timestamp} {record : Record} {schema : Schema}
    (accepted : ofRecord now record = .ok schema) : schema.Assembled record := by
  obtain ⟨name, declarations, assembly, classified, run, rfl⟩ := exists_run_of_ofRecord accepted
  obtain ⟨added, same, declares⟩ := Declaration.classifyFrom_eq_ok classified
  rw [List.reverse_nil, List.nil_append] at same
  subst same
  have outcome := Assembly.outcome_of_ok declares (by simp [Assembly.Covered, OrderedMap.keys]) run
  rw [run] at outcome
  obtain ⟨fields, relations, directives, splits, extended⟩ := outcome
  have fieldsEq : assembly.fields.toList = fields := extended.fields
  have relationsEq : assembly.relations.toList = relations := extended.relations
  have directivesEq : assembly.directives.toList = directives := extended.directives
  refine ⟨⟨directives, ?_⟩, ?_, rfl⟩
  · simpa only [fieldsEq, relationsEq] using splits
  · rw [Directives.ofRecord, directivesEq]
    exact Directives.foldl_of_splits splits {}

theorem name_of_ofRecord {now : Timestamp} {record : Record} {schema : Schema}
    (distinct : record.keys.Nodup) (accepted : ofRecord now record = .ok schema) :
    Key.type ∉ record.keys ∧ schema.name = [] ∨
      (Key.type, .string schema.name) ∈ record.toList := by
  obtain ⟨name, declarations, assembly, classified, _, rfl⟩ := exists_run_of_ofRecord accepted
  rw [OrderedMap.keys_eq] at distinct ⊢
  exact Declaration.classifyFrom_name distinct classified

namespace Assembly

theorem distinct_of_add {assembly next : Assembly} {declaration : Declaration}
    (added : assembly.add declaration = .ok next)
    (distinct : assembly.fields.keys.Nodup ∧ assembly.relations.keys.Nodup) :
    next.fields.keys.Nodup ∧ next.relations.keys.Nodup := by
  have fresh := notMem_seen_of_add added
  cases declaration with
  | directive name value =>
      have fresh : name ∉ assembly.seen := fresh
      simp only [add, Declaration.name, List.contains_iff_mem, fresh, if_false,
        Except.ok.injEq] at added
      subst added
      exact distinct
  | relation name expression =>
      have fresh : name ∉ assembly.seen := fresh
      cases parsed : Relation.parse expression with
      | error error => simp [add, Declaration.name, fresh, parsed] at added
      | ok relation =>
          simp only [add, Declaration.name, List.contains_iff_mem, fresh, if_false, parsed,
            Except.ok.injEq] at added
          subst added
          exact ⟨distinct.1, OrderedMap.nodup_keys_set distinct.2⟩
  | field name expression =>
      have fresh : name ∉ assembly.seen := fresh
      cases parsed : Field.parse expression with
      | error error => simp [add, Declaration.name, fresh, parsed] at added
      | ok field =>
          simp only [add, Declaration.name, List.contains_iff_mem, fresh, if_false, parsed,
            Except.ok.injEq] at added
          subst added
          exact ⟨OrderedMap.nodup_keys_set distinct.1, distinct.2⟩

theorem distinct_of_addAll {assembly result : Assembly} {declarations : List Declaration}
    (run : assembly.addAll declarations = .ok result)
    (distinct : assembly.fields.keys.Nodup ∧ assembly.relations.keys.Nodup) :
    result.fields.keys.Nodup ∧ result.relations.keys.Nodup := by
  induction declarations generalizing assembly with
  | nil =>
      obtain rfl := Except.ok.inj run
      exact distinct
  | cons declaration declarations ih =>
      obtain ⟨next, added, rest⟩ := addAll_cons_eq_ok run
      exact ih rest (distinct_of_add added distinct)

end Assembly

theorem distinct_of_ofRecord {now : Timestamp} {record : Record} {schema : Schema}
    (accepted : ofRecord now record = .ok schema) :
    schema.fields.keys.Nodup ∧ schema.relations.keys.Nodup := by
  obtain ⟨_, _, assembly, _, run, rfl⟩ := exists_run_of_ofRecord accepted
  exact Assembly.distinct_of_addAll run (by simp [OrderedMap.keys])

namespace Splits

variable {entries : List (Text × Value)} {fields : List (Text × Field)}
  {relations : List (Text × Relation)} {directives : List (Text × Value)}

theorem mem_fields (splits : Splits entries fields relations directives) {key : Text}
    {field : Field} (member : (key, field) ∈ fields) :
    Key.isDirective key = false ∧ ∃ text, Relation.isRelationText text = false ∧
      Field.parse text = .ok field := by
  induction splits with
  | nil => simp at member
  | name _ ih => exact ih member
  | directive _ _ _ ih => exact ih member
  | relation _ _ _ _ ih => exact ih member
  | field noDirective isField parsed _ ih =>
      rcases List.mem_cons.mp member with same | member
      · obtain ⟨rfl, rfl⟩ := Prod.mk.inj same
        exact ⟨noDirective, _, isField, parsed⟩
      · exact ih member

theorem mem_relations (splits : Splits entries fields relations directives) {key : Text}
    {relation : Relation} (member : (key, relation) ∈ relations) :
    Key.isDirective key = false ∧ ∃ text, Relation.parse text = .ok relation := by
  induction splits with
  | nil => simp at member
  | name _ ih => exact ih member
  | directive _ _ _ ih => exact ih member
  | relation noDirective _ parsed _ ih =>
      rcases List.mem_cons.mp member with same | member
      · obtain ⟨rfl, rfl⟩ := Prod.mk.inj same
        exact ⟨noDirective, _, parsed⟩
      · exact ih member
  | field _ _ _ _ ih => exact ih member

theorem classifies (splits : Splits entries fields relations directives) :
    Declaration.Classifies entries := by
  induction splits with
  | nil => exact fun schemaName done => ⟨schemaName, [], by simp [Declaration.classifyFrom], .nil⟩
  | name _ ih =>
      intro schemaName done
      obtain ⟨name, declarations, classified, declares⟩ := ih _ done
      exact ⟨name, declarations, by simpa [Declaration.classifyFrom] using classified,
        .name declares⟩
  | directive notType isDirective _ ih =>
      exact ih.cons notType (by simp [Declaration.ofEntry, isDirective])
        (.directive notType isDirective)
  | relation noDirective _ _ _ ih => exact ih.expression noDirective
  | field noDirective _ _ _ ih => exact ih.expression noDirective

theorem addAll (splits : Splits entries fields relations directives)
    {declarations : List Declaration} (declares : Declaration.Declares entries declarations)
    {assembly : Assembly} (covered : assembly.Covered) (distinct : (entries.map Prod.fst).Nodup)
    (fresh : ∀ key ∈ entries.map Prod.fst, key ∉ assembly.seen) :
    ∃ result, assembly.addAll declarations = .ok result ∧
      assembly.Extends fields relations directives result := by
  -- The entry decides which declaration stands for it; the other cases contradict its key.
  induction splits generalizing declarations assembly with
  | nil =>
      cases declares
      exact ⟨assembly, rfl, by simp, by simp, by simp⟩
  | name _ ih =>
      rw [List.map_cons, List.nodup_cons] at distinct
      cases declares with
      | name declares =>
          exact ih declares covered distinct.2 fun key member => fresh key (by simp [member])
      | directive notType => exact absurd rfl notType
      | expression noDirective => exact absurd noDirective (by decide)
  | @directive key value _ _ _ _ notType isDirective _ ih =>
      rw [List.map_cons, List.nodup_cons] at distinct
      obtain ⟨next, added, seen, first⟩ :=
        Assembly.add_directive covered (fresh key (by simp)) value
      cases declares with
      | name => exact absurd rfl notType
      | directive _ _ declares =>
          exact first.step added (ih declares (covered.of_extends first seen (by simp)) distinct.2
            (Assembly.fresh_next distinct.1 seen fresh))
      | expression noDirective => simp [isDirective] at noDirective
  | @relation key text _ _ _ _ _ noDirective isRelation parsed _ ih =>
      rw [List.map_cons, List.nodup_cons] at distinct
      obtain ⟨next, added, seen, first⟩ :=
        Assembly.add_relation covered (fresh key (by simp)) parsed
      cases declares with
      | name => exact absurd noDirective (by decide)
      | directive _ isDirective => simp [isDirective] at noDirective
      | expression _ declares =>
          rw [Declaration.ofExpression, if_pos isRelation]
          exact first.step added (ih declares (covered.of_extends first seen (by simp)) distinct.2
            (Assembly.fresh_next distinct.1 seen fresh))
  | @field key text _ _ _ _ _ noDirective isField parsed _ ih =>
      rw [List.map_cons, List.nodup_cons] at distinct
      obtain ⟨next, added, seen, first⟩ := Assembly.add_field covered (fresh key (by simp)) parsed
      cases declares with
      | name => exact absurd noDirective (by decide)
      | directive _ isDirective => simp [isDirective] at noDirective
      | expression _ declares =>
          rw [Declaration.ofExpression, if_neg (by simp [isField])]
          exact first.step added (ih declares (covered.of_extends first seen (by simp)) distinct.2
            (Assembly.fresh_next distinct.1 seen fresh))

end Splits

theorem ofRecord_of_splits {record : Record} {fields : List (Text × Field)}
    {relations : List (Text × Relation)} {directives : List (Text × Value)} (now : Timestamp)
    (distinct : record.keys.Nodup) (splits : Splits record.toList fields relations directives) :
    ∃ schema, ofRecord now record = .ok schema ∧ schema.fields.toList = fields ∧
      schema.relations.toList = relations := by
  rw [OrderedMap.keys_eq] at distinct
  obtain ⟨name, declarations, classified, declares⟩ := splits.classifies [] []
  obtain ⟨assembly, run, extended⟩ := splits.addAll declares
    (show Assembly.Covered {} by simp [Assembly.Covered, OrderedMap.keys]) distinct (by simp)
  rw [List.reverse_nil, List.nil_append] at classified
  simp only [ofRecord, Declaration.classify, classified, ofDeclarations, run]
  exact ⟨_, rfl, extended.fields, extended.relations⟩

namespace Assembled

variable {record : Record} {schema : Schema} {key : Text}

theorem field (assembled : schema.Assembled record) {field : Field}
    (member : (key, field) ∈ schema.fields.toList) :
    Key.isDirective key = false ∧ field.WellFormed ∧ field.relation = none := by
  obtain ⟨directives, splits⟩ := assembled.splits
  obtain ⟨plain, text, noArrow, parsed⟩ := splits.mem_fields member
  exact ⟨plain, Field.wellFormed_of_parse parsed, (Field.parse_of_no_arrow noArrow parsed).1⟩

theorem relation (assembled : schema.Assembled record) {relation : Relation}
    (member : (key, relation) ∈ schema.relations.toList) :
    Key.isDirective key = false ∧ relation.WellFormed := by
  obtain ⟨directives, splits⟩ := assembled.splits
  obtain ⟨plain, text, parsed⟩ := splits.mem_relations member
  exact ⟨plain, Relation.wellFormed_of_parse parsed⟩

end Assembled

end Schema

end EntitySchema
