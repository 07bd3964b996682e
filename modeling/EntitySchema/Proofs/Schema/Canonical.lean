import EntitySchema.Proofs.Directives
import EntitySchema.Proofs.Field.RoundTrip
import EntitySchema.Proofs.Schema.Assembled
import EntitySchema.Schema.Render

/-!
The canonical record of a schema, in the order of its text: the name, the fields, the relations and
the directives. Assembling it again gives the schema back, with the same text and fingerprint.
-/

namespace EntitySchema

open Lexer

theorem Field.WellFormed.isRelationText_render {field : Field} (wellFormed : field.WellFormed)
    (noRelation : field.relation = none) : Relation.isRelationText field.render = false := by
  rw [← Bool.not_eq_true, Relation.isRelationText_iff_lexemes]
  rintro ⟨first, others, shape, kind⟩
  rcases wellFormed.written.head with ⟨_, _, relation, _, _, _, same⟩ |
    ⟨name, rest, base, named, names, _⟩
  · simp [same, Field.ofRelation] at noRelation
  · rw [shape] at named
    obtain ⟨rfl, _⟩ := List.cons.inj named
    have isName := names.1
    simp [Lexeme.isName, kind] at isName

theorem Relation.WellFormed.isRelationText_render {relation : Relation}
    (wellFormed : relation.WellFormed) : isRelationText relation.render = true := by
  obtain ⟨operator, target, rest, shape, kind, _⟩ := wellFormed.written.head
  exact (isRelationText_iff_lexemes _).mpr ⟨operator, _, shape, kind⟩

structure Record.Distinct (record : Record) : Prop where
  keys : record.keys.Nodup
  inner : ∀ entry ∈ record.toList, entry.2.keys.Nodup

namespace Schema

def entries (schema : Schema) : List (Text × Value) :=
  (if schema.name.isEmpty then [] else [(Key.type, .string schema.name)]) ++
  schema.fields.toList.map (fun entry => (entry.1, .string entry.2.render)) ++
  schema.relations.toList.map (fun entry => (entry.1, .string entry.2.render)) ++
  schema.directives.entries

def toRecord (schema : Schema) : Record := .ofList schema.entries

namespace Splits

theorem append {entries more : List (Text × Value)} {fields moreFields : List (Text × Field)}
    {relations moreRelations : List (Text × Relation)}
    {directives moreDirectives : List (Text × Value)}
    (splits : Splits entries fields relations directives)
    (rest : Splits more moreFields moreRelations moreDirectives) :
    Splits (entries ++ more) (fields ++ moreFields) (relations ++ moreRelations)
      (directives ++ moreDirectives) := by
  induction splits with
  | nil => exact rest
  | name _ ih => exact .name ih
  | directive notType isDirective _ ih => exact .directive notType isDirective ih
  | relation noDirective isRelation parsed _ ih => exact .relation noDirective isRelation parsed ih
  | field noDirective isField parsed _ ih => exact .field noDirective isField parsed ih

theorem of_fields {fields : List (Text × Field)}
    (readable : ∀ entry ∈ fields, Key.isDirective entry.1 = false ∧
      Relation.isRelationText entry.2.render = false ∧
      Field.parse entry.2.render = .ok entry.2) :
    Splits (fields.map fun entry => (entry.1, .string entry.2.render)) fields [] [] := by
  induction fields with
  | nil => exact .nil
  | cons entry fields ih =>
      rw [List.forall_mem_cons] at readable
      obtain ⟨⟨noDirective, isField, parsed⟩, others⟩ := readable
      exact .field noDirective isField parsed (ih others)

theorem of_relations {relations : List (Text × Relation)}
    (readable : ∀ entry ∈ relations, Key.isDirective entry.1 = false ∧
      Relation.isRelationText entry.2.render = true ∧
      Relation.parse entry.2.render = .ok entry.2) :
    Splits (relations.map fun entry => (entry.1, .string entry.2.render)) [] relations [] := by
  induction relations with
  | nil => exact .nil
  | cons entry relations ih =>
      rw [List.forall_mem_cons] at readable
      obtain ⟨⟨noDirective, isRelation, parsed⟩, others⟩ := readable
      exact .relation noDirective isRelation parsed (ih others)

theorem of_directives {directives : List (Text × Value)}
    (known : ∀ entry ∈ directives, entry.1 ≠ Key.type ∧ Key.isDirective entry.1 = true) :
    Splits directives [] [] directives := by
  induction directives with
  | nil => exact .nil
  | cons entry directives ih =>
      rw [List.forall_mem_cons] at known
      exact .directive known.1.1 known.1.2 (ih known.2)

end Splits

structure Readable (schema : Schema) : Prop where
  fields : ∀ entry ∈ schema.fields.toList, entry.2.render.length ≤ maxExpressionLength
  relations : ∀ entry ∈ schema.relations.toList, entry.2.render.length ≤ maxExpressionLength

theorem directive_of_mem {directives : Directives} {entry : Text × Value}
    (member : entry ∈ directives.entries) :
    entry.1 ≠ Key.type ∧ Key.isDirective entry.1 = true := by
  have known : ∀ key ∈ [Key.partitionBy, Key.index, Key.fullText, Key.vector],
      key ≠ Key.type ∧ Key.isDirective key = true := by decide
  exact known _ (directives.entries_keys.subset (List.mem_map_of_mem member))

namespace Assembled

variable {record : Record} {schema : Schema}

theorem splits_entries (assembled : schema.Assembled record) (readable : schema.Readable) :
    Splits schema.entries schema.fields.toList schema.relations.toList
      schema.directives.entries := by
  have name : Splits (if schema.name.isEmpty then [] else [(Key.type, .string schema.name)])
      [] [] [] := by
    split
    · exact .nil
    · exact .name .nil
  have fields := Splits.of_fields fun entry member =>
    have ⟨plain, wellFormed, noRelation⟩ := assembled.field member
    ⟨plain, wellFormed.isRelationText_render noRelation,
      wellFormed.parse_render (readable.fields entry member)⟩
  have relations := Splits.of_relations fun entry member =>
    have ⟨plain, wellFormed⟩ := assembled.relation member
    ⟨plain, wellFormed.isRelationText_render,
      wellFormed.parse_render (readable.relations entry member)⟩
  have directives : Splits schema.directives.entries [] [] schema.directives.entries :=
    .of_directives fun _ => directive_of_mem
  have all := ((name.append fields).append relations).append directives
  simpa [entries] using all

theorem plain_of_mem (assembled : schema.Assembled record) {key : Text}
    (member : key ∈ schema.fields.keys ++ schema.relations.keys) :
    Key.isDirective key = false := by
  rw [OrderedMap.keys_eq, OrderedMap.keys_eq] at member
  rcases List.mem_append.mp member with inside | inside
  · obtain ⟨⟨_, field⟩, declared, rfl⟩ := List.mem_map.mp inside
    exact (assembled.field declared).1
  · obtain ⟨⟨_, relation⟩, declared, rfl⟩ := List.mem_map.mp inside
    exact (assembled.relation declared).1

theorem nodup_entries (assembled : schema.Assembled record) (distinct : record.keys.Nodup) :
    (schema.entries.map Prod.fst).Nodup := by
  have declared : (schema.fields.keys ++ schema.relations.keys).Nodup := by
    obtain ⟨directives, splits⟩ := assembled.splits
    rw [OrderedMap.keys_eq] at distinct
    rw [OrderedMap.keys_eq, OrderedMap.keys_eq]
    exact splits.keys_perm.nodup_iff.mpr (distinct.filter _)
  have known : ∀ key ∈ [Key.partitionBy, Key.index, Key.fullText, Key.vector],
      Key.isDirective key = true := by decide
  have all : ([Key.type] ++ (schema.fields.keys ++ schema.relations.keys ++
      [Key.partitionBy, Key.index, Key.fullText, Key.vector])).Nodup := by
    have plain {key : Text} (isDirective : Key.isDirective key = true) :
        key ∉ schema.fields.keys ++ schema.relations.keys := fun member => by
      simp [assembled.plain_of_mem member] at isDirective
    refine List.nodup_append.mpr ⟨by simp, List.nodup_append.mpr ⟨declared, by decide, ?_⟩, ?_⟩
    · rintro key member _ inside rfl
      exact plain (known key inside) member
    · rintro _ first key member rfl
      obtain rfl := List.mem_singleton.mp first
      rcases List.mem_append.mp member with inside | inside
      · exact plain (by decide) inside
      · exact absurd inside (by decide)
  -- The entries leave out the name or a directive that is empty.
  refine List.Sublist.nodup ?_ all
  have name : ((if schema.name.isEmpty then [] else [(Key.type, Value.string schema.name)]).map
      Prod.fst).Sublist [Key.type] := by
    split <;> simp
  have whole := name.append ((List.Sublist.refl
    (schema.fields.keys ++ schema.relations.keys)).append schema.directives.entries_keys)
  simpa [entries, OrderedMap.keys_eq, Function.comp_def] using whole

theorem mem_entries_type (assembled : schema.Assembled record) {value : Value} :
    (Key.type, value) ∈ schema.entries ↔ schema.name ≠ [] ∧ value = .string schema.name := by
  have typeKey : Key.isDirective Key.type = true := by decide
  constructor
  · intro member
    simp only [entries, List.mem_append, List.mem_map, Prod.mk.injEq] at member
    rcases member with ((named | ⟨entry, declared, same, _⟩) | ⟨entry, declared, same, _⟩) |
      directive
    · split at named
      · simp at named
      next nonempty => exact ⟨by simpa using nonempty, by simpa using named⟩
    · simp [← same, (assembled.field declared).1] at typeKey
    · simp [← same, (assembled.relation declared).1] at typeKey
    · exact absurd rfl (directive_of_mem directive).1
  · rintro ⟨nonempty, rfl⟩
    simp [entries, nonempty]

end Assembled

/--
The canonical record of an accepted schema is accepted as a schema with the same name, the same
definitions in the same order and the same directives, which is written the same.
-/
theorem ofRecord_toRecord {now : Timestamp} {record : Record} {schema : Schema}
    (distinct : record.Distinct) (accepted : ofRecord now record = .ok schema)
    (readable : schema.Readable) (later : Timestamp) :
    schema.toRecord.toList = schema.entries ∧
      ∃ again, ofRecord later schema.toRecord = .ok again ∧ again.name = schema.name ∧
        again.fields.toList = schema.fields.toList ∧
        again.relations.toList = schema.relations.toList ∧
        again.directives = schema.directives ∧ again.render = schema.render ∧
        again.fingerprint = schema.fingerprint := by
  have assembled := assembled_of_ofRecord accepted
  have nodup := assembled.nodup_entries distinct.keys
  have listed : schema.toRecord.toList = schema.entries := OrderedMap.toList_ofList nodup
  have keys : schema.toRecord.keys.Nodup := by rwa [OrderedMap.keys_eq, listed]
  have splits := assembled.splits_entries readable
  obtain ⟨again, acceptedAgain, fields, relations⟩ :=
    ofRecord_of_splits later keys (listed.symm ▸ splits)
  have assembledAgain := assembled_of_ofRecord acceptedAgain
  have directives : again.directives = schema.directives := by
    have regular : schema.directives.Regular :=
      assembled.directives ▸ Directives.regular_ofRecord distinct.inner
    rw [assembledAgain.directives, Directives.ofRecord, listed,
      ← Directives.foldl_of_splits splits, Directives.foldl_entries regular]
  have name : again.name = schema.name := by
    rcases name_of_ofRecord keys acceptedAgain with ⟨absent, empty⟩ | present
    · rw [empty]
      by_contra nonempty
      have written := assembled.mem_entries_type.mpr ⟨Ne.symm nonempty, rfl⟩
      rw [← listed] at written
      exact absent (OrderedMap.keys_eq _ ▸ List.mem_map_of_mem written)
    · rw [listed] at present
      exact Value.string.inj (assembled.mem_entries_type.mp present).2
  have rendered : again.render = schema.render := by
    rw [render, render, lines, lines, name, fields, relations, directives]
  refine ⟨listed, again, acceptedAgain, name, fields, relations, directives, rendered, ?_⟩
  rw [fingerprint, fingerprint, fingerprintText, fingerprintText, rendered, assembled.version,
    assembledAgain.version]

def articleRecord : Record := OrderedMap.ofList
  [(utf8 "author", .string (utf8 " ->  User . articles")),
    (Key.vector, .counts (OrderedMap.ofList [(utf8 "embedding", 3)])),
    (utf8 "title", .string (utf8 "VarChar ( 40 )!= 'a'")), (Key.fullText, .strings [utf8 "title"]),
    (utf8 "embedding", .string (utf8 "LIST<float>")),
    (Key.index, .list [.strings [utf8 "title"], .record (OrderedMap.ofList
      [(utf8 "unique", .boolean true), (utf8 "fields", .strings [utf8 "title", utf8 "author"])])]),
    (Key.type, .string (utf8 "Article"))]

theorem ofRecord_toRecord_article :
    articleRecord.Distinct ∧ ∃ schema, ofRecord Timestamp.zero articleRecord = .ok schema ∧
      schema.Readable ∧ ∃ again, ofRecord Timestamp.zero schema.toRecord = .ok again ∧
        again.fingerprint = schema.fingerprint := by
  have distinct : articleRecord.Distinct := ⟨OrderedMap.nodup_keys_ofList _, by decide⟩
  have facts : (match ofRecord Timestamp.zero articleRecord with
    | .ok schema => decide
        ((∀ entry ∈ schema.fields.toList, entry.2.render.length ≤ maxExpressionLength) ∧
          ∀ entry ∈ schema.relations.toList, entry.2.render.length ≤ maxExpressionLength)
    | .error _ => false) = true := by decide +kernel
  refine ⟨distinct, ?_⟩
  cases accepted : ofRecord Timestamp.zero articleRecord with
  | error error => simp [accepted] at facts
  | ok schema =>
      rw [accepted] at facts
      obtain ⟨fields, relations⟩ := of_decide_eq_true facts
      have readable : schema.Readable := ⟨fields, relations⟩
      obtain ⟨_, again, acceptedAgain, _, _, _, _, _, same⟩ :=
        ofRecord_toRecord distinct accepted readable Timestamp.zero
      exact ⟨schema, rfl, readable, again, acceptedAgain, same⟩

end Schema

end EntitySchema
