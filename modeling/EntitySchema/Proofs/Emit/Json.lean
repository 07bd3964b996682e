import EntitySchema.Emit.Emitter
import EntitySchema.Proofs.Emit.Shown
import EntitySchema.Proofs.Schema.Assembled

/-!
JSON output. Schemas of records whose texts are valid are written with every indentation, and
reading the output gives one object for each schema that shows it.
-/

namespace EntitySchema

section Texts

def Relation.texts (relation : Relation) : List Text :=
  [relation.operator, relation.target, relation.inverse]

def DefaultValue.texts : DefaultValue → List Text
  | .string text => [text]
  | .function name => [name]
  | _ => []

def Field.texts (field : Field) : List Text :=
  field.type :: field.modifier ::
    (field.default.toList.flatMap DefaultValue.texts ++
      field.relation.toList.flatMap Relation.texts)

def Directives.texts (directives : Directives) : List Text :=
  directives.partitionBy ++ directives.indexes.flatMap Index.fields ++ directives.fullText ++
    directives.vectors.map Embedding.field

def Schema.texts (schema : Schema) : List Text :=
  schema.name :: (schema.fields.toList.flatMap (fun entry => entry.1 :: entry.2.texts) ++
    schema.relations.toList.flatMap (fun entry => entry.1 :: entry.2.texts) ++
    schema.directives.texts)

end Texts

section Fits

variable {depth : Nat}

def MembersFit (depth : Nat) (members : List (Text × Document)) : Prop :=
  ∀ member ∈ members, member.1.IsUtf8 ∧ member.2.Fits depth

theorem MembersFit.map {members : List (Text × Document)} (fit : MembersFit depth members) :
    (Document.map members).Fits (depth + 1) :=
  .map (fun member inside => (fit member inside).1) fun member inside => (fit member inside).2

theorem MembersFit.append {left right : List (Text × Document)} (leftFit : MembersFit depth left)
    (rightFit : MembersFit depth right) : MembersFit depth (left ++ right) :=
  List.forall_mem_append.mpr ⟨leftFit, rightFit⟩

theorem MembersFit.cons {name : String} {value : Document} {members : List (Text × Document)}
    (fits : value.Fits depth) (others : MembersFit depth members) :
    MembersFit depth ((utf8 name, value) :: members) :=
  List.forall_mem_cons.mpr ⟨⟨Text.isUtf8_literal name, fits⟩, others⟩

theorem MembersFit.nil : MembersFit depth [] := by
  intro member inside
  simp at inside

theorem membersFit_unless {isAbsent : Bool} (name : String) {value : Document}
    (fits : isAbsent = false → value.Fits depth) :
    MembersFit depth (memberUnless isAbsent name value) := by
  cases isAbsent with
  | true => exact .nil
  | false => exact .cons (fits rfl) .nil

theorem membersFit_ofInt? (name : String) (value : Option Int) :
    MembersFit depth (memberOfInt? name value) := by
  cases value with
  | none => exact .nil
  | some value => exact .cons (.integer value) .nil

theorem textList_fits {texts : List Text} (isUtf8 : ∀ text ∈ texts, text.IsUtf8) :
    (textList texts).Fits (depth + 1) := by
  refine .list fun item member => ?_
  obtain ⟨text, inside, rfl⟩ := List.mem_map.mp member
  exact .string (isUtf8 text inside)

theorem Relation.fits {relation : Relation} (isUtf8 : ∀ text ∈ relation.texts, text.IsUtf8) :
    relation.toDocument.Fits (depth + 1) := by
  simp only [texts, List.forall_mem_cons] at isUtf8
  obtain ⟨operator, target, inverse, _⟩ := isUtf8
  exact MembersFit.map (((MembersFit.cons (.string operator)
    (.cons (.string target) .nil)).append (membersFit_unless _ fun _ => .string inverse)).append
      (membersFit_unless _ fun _ => .boolean true) |>.append
        (membersFit_unless _ fun _ => .boolean true))

theorem DefaultValue.fits {value : DefaultValue} (wellFormed : value.WellFormed)
    (isUtf8 : ∀ text ∈ value.texts, text.IsUtf8) : value.toDocument.Fits (depth + 1) := by
  cases value with
  | null => exact .null
  | boolean value => exact .boolean value
  | number value => exact .number wellFormed
  | string text => exact .string (isUtf8 text (by simp [texts]))
  | function name =>
      exact MembersFit.map (.cons (.string (isUtf8 name (by simp [texts]))) .nil)
  | object => exact MembersFit.map .nil
  | array => exact .list (by simp)
  | unknown => exact wellFormed.elim

theorem Field.fits {field : Field} (wellFormed : field.WellFormed)
    (isUtf8 : ∀ text ∈ field.texts, text.IsUtf8) : field.toDocument.Fits (depth + 2) := by
  simp only [texts, List.forall_mem_cons, List.forall_mem_append] at isUtf8
  obtain ⟨type, modifier, defaults, relations⟩ := isUtf8
  have fixed : MembersFit (depth + 1)
      [(utf8 "type", .string field.type), (utf8 "modifier", .string field.modifier),
        (utf8 "isArray", .boolean field.isArray), (utf8 "isOptional", .boolean field.isOptional),
        (utf8 "isRequired", .boolean field.isRequired), (utf8 "isUnique", .boolean field.isUnique),
        (utf8 "isIndexed", .boolean field.isIndexed)] :=
    .cons (.string type) <| .cons (.string modifier) <| .cons (.boolean _) <| .cons (.boolean _) <|
      .cons (.boolean _) <| .cons (.boolean _) <| .cons (.boolean _) .nil
  have numbers := ((fixed.append (membersFit_ofInt? "precision" field.precision)).append
    (membersFit_ofInt? "scale" field.scale)).append (membersFit_ofInt? "length" field.length)
  refine MembersFit.map ((numbers.append ?_).append ?_)
  · cases present : field.default with
    | none => exact .nil
    | some value =>
        refine .cons (DefaultValue.fits (wellFormed.default value present) ?_) .nil
        simpa [present] using defaults
  · cases present : field.relation with
    | none => exact .nil
    | some relation =>
        refine .cons (Relation.fits ?_) .nil
        simpa [present] using relations

theorem Directives.fits {directives : Directives}
    (isUtf8 : ∀ text ∈ directives.texts, text.IsUtf8) :
    directives.toDocument.Fits (depth + 4) := by
  simp only [texts, List.forall_mem_append] at isUtf8
  obtain ⟨⟨⟨partitionBy, indexes⟩, fullText⟩, vectors⟩ := isUtf8
  refine MembersFit.map (((MembersFit.append ?_ ?_).append ?_).append ?_)
  · exact membersFit_unless _ fun _ => textList_fits partitionBy
  · refine membersFit_unless _ fun _ => .list fun item member => ?_
    obtain ⟨index, inside, rfl⟩ := List.mem_map.mp member
    exact MembersFit.map (.cons (textList_fits fun text named =>
      indexes text (List.mem_flatMap.mpr ⟨index, inside, named⟩)) (.cons (.boolean _) .nil))
  · exact membersFit_unless _ fun _ => textList_fits fullText
  · refine membersFit_unless _ fun _ => .list fun item member => ?_
    obtain ⟨vector, inside, rfl⟩ := List.mem_map.mp member
    exact MembersFit.map (.cons (.string (vectors _ (List.mem_map_of_mem inside)))
      (.cons (.integer _) .nil))

theorem table_fits {α : Type} {entries : List (Text × α)} {write : α → Document}
    (fits : ∀ entry ∈ entries, entry.1.IsUtf8 ∧ (write entry.2).Fits depth) :
    (Document.table (entries.map fun entry => (entry.1, write entry.2))).Fits (depth + 1) := by
  refine .table ?_ ?_
  all_goals
    intro member inside
    obtain ⟨entry, stored, rfl⟩ := List.mem_map.mp inside
  · exact (fits entry stored).1
  · exact (fits entry stored).2

theorem Schema.fits {schema : Schema} {shows : Timestamp → Bool}
    (wellFormed : ∀ entry ∈ schema.fields.toList, entry.2.WellFormed)
    (isUtf8 : ∀ text ∈ schema.texts, text.IsUtf8)
    (written : ∀ moment ∈ [schema.createdAt, schema.updatedAt], shows moment = true →
      moment.fault? = none) : (schema.toDocument shows).Fits (depth + 5) := by
  simp only [texts, List.forall_mem_cons, List.forall_mem_append, List.forall_mem_flatMap] at isUtf8
  simp only [List.forall_mem_cons] at written
  obtain ⟨name, ⟨fields, relations⟩, directives⟩ := isUtf8
  obtain ⟨created, updated, _⟩ := written
  refine MembersFit.map ((((membersFit_unless _ fun _ => .string name).append
    (.cons (.integer _) (.cons ?_ (.cons ?_ (.cons (Directives.fits directives) .nil))))).append
      (membersFit_unless _ fun shown => .timestamp (created (by simpa using shown)))).append
        (membersFit_unless _ fun shown => .timestamp (updated (by simpa using shown))))
  · exact table_fits fun entry stored =>
      ⟨(fields entry stored).1, Field.fits (wellFormed entry stored) (fields entry stored).2⟩
  · exact table_fits fun entry stored =>
      ⟨(relations entry stored).1, Relation.fits (relations entry stored).2⟩

end Fits

namespace Schema

def withoutMoments (schema : Schema) : Schema :=
  { schema with createdAt := .zero, updatedAt := .zero }

theorem toDocument_withoutMoments {shows : Timestamp → Bool}
    (hidden : ∀ moment, shows moment = false) (schema : Schema) :
    schema.withoutMoments.toDocument shows = schema.toDocument shows := by
  simp [toDocument, withoutMoments, hidden, memberUnless]

end Schema

namespace Emitter

theorem shows_json (options : EmitOptions) (moment : Timestamp) :
    Emitter.json.shows options moment = !options.omitTimestamps := by
  simp [shows]

theorem emit_json (options : EmitOptions) {schemas : List Schema} {array : Json}
    (written : (Document.list (Emitter.json.views options schemas)).toJson = .ok array) :
    Emitter.json.emit options schemas =
      .ok (array.renderIndented (step options) 0 ++ utf8 "\n") := by
  simp only [emit, write, written]

theorem emit_json_congr {options : EmitOptions} (omits : options.omitTimestamps = true)
    {schemas others : List Schema}
    (same : others.map Schema.withoutMoments = schemas.map Schema.withoutMoments) :
    Emitter.json.emit options others = Emitter.json.emit options schemas := by
  have hidden (moment : Timestamp) : Emitter.json.shows options moment = false := by
    rw [shows_json, omits]
    rfl
  have views (schemas : List Schema) : Emitter.json.views options schemas =
      (schemas.map Schema.withoutMoments).map (Schema.toDocument (Emitter.json.shows options)) := by
    rw [Emitter.views, List.map_map]
    exact List.map_congr_left fun schema _ => (Schema.toDocument_withoutMoments hidden schema).symm
  simp only [emit, write, views, same]

/--
Every list of schemas that were assembled from records is written, and what is written is read as
one object for each of them. The indentation only makes a difference in blanks between the tokens,
and moments that are left out make none.
-/
theorem emit_json_faithful {schemas : List Schema} (omits : Bool)
    (parsed : ∀ schema ∈ schemas, ∃ now record, Schema.ofRecord now record = .ok schema)
    (isUtf8 : ∀ schema ∈ schemas, ∀ text ∈ schema.texts, text.IsUtf8)
    (clock : omits = false → ∀ schema ∈ schemas,
      schema.createdAt.fault? = none ∧ schema.updatedAt.fault? = none) :
    ∃ objects, List.Forall₂ (Schema.ShownAs omits) schemas objects ∧ ∀ indent, ∃ text,
      Emitter.json.emit { indent := indent, omitTimestamps := omits } schemas = .ok text ∧
      Json.read? text = some (.array objects) ∧
      Json.squeeze text = (Json.array objects).render ∧
      (omits = true → ∀ others,
        others.map Schema.withoutMoments = schemas.map Schema.withoutMoments →
        Emitter.json.emit { indent := indent, omitTimestamps := omits } others = .ok text) := by
  have shows (moment : Timestamp) :
      Emitter.json.shows { omitTimestamps := omits } moment = !omits := shows_json _ moment
  have wellFormed : ∀ schema ∈ schemas, ∀ entry ∈ schema.fields.toList, entry.2.WellFormed := by
    intro schema member entry stored
    obtain ⟨now, record, accepted⟩ := parsed schema member
    exact ((Schema.assembled_of_ofRecord accepted).field stored).2.1
  have fits : (Document.list (Emitter.json.views { omitTimestamps := omits } schemas)).Fits
      (9994 + 6) := by
    refine .list fun item member => ?_
    obtain ⟨schema, inside, rfl⟩ := List.mem_map.mp member
    refine Schema.fits (wellFormed schema inside) (isUtf8 schema inside) ?_
    intro moment stamp shown
    rw [shows, Bool.not_eq_true'] at shown
    have faultless := clock shown schema inside
    rcases List.mem_cons.mp stamp with rfl | stamp
    · exact faultless.1
    · rw [List.mem_singleton.mp stamp]
      exact faultless.2
  obtain ⟨array, written, printable⟩ := fits.exists_json
  obtain ⟨objects, rfl, alike⟩ := Document.list_toJson written
  refine ⟨objects, ?_, fun indent => ?_⟩
  · rw [views, List.forall₂_map_left_iff] at alike
    refine forall₂_of_mem alike fun schema member json shown => ?_
    obtain ⟨now, record, accepted⟩ := parsed schema member
    exact Schema.shownAs shows (Schema.distinct_of_ofRecord accepted) (wellFormed schema member)
      shown
  · have text := emit_json { indent := indent, omitTimestamps := omits } written
    obtain ⟨read, squeezed⟩ := printable.read?_printed (step { indent := indent })
    refine ⟨_, text, read, squeezed, fun hidden others same => ?_⟩
    rw [emit_json_congr hidden same, text]

def ticketRecord : Record := OrderedMap.ofList
  [(Key.type, .string (utf8 "Ticket")), (utf8 "title", .string (utf8 "string! = \"a \\\"b\\\"\"")),
    (utf8 "price", .string (utf8 "decimal(10, 2)? = 1.5")),
    (utf8 "owner", .string (utf8 "-> User.tickets?")),
    (Key.index, .list [.list [.string (utf8 "title")]])]

theorem emit_json_faithful_ticket :
    ∃ schema, Schema.ofRecord .zero ticketRecord = .ok schema ∧
      (∀ text ∈ schema.texts, text.IsUtf8) ∧
      (schema.createdAt.fault? = none ∧ schema.updatedAt.fault? = none) ∧
      ∃ objects, List.Forall₂ (Schema.ShownAs false) [schema, schema] objects ∧ ∀ indent, ∃ text,
        Emitter.json.emit { indent := indent } [schema, schema] = .ok text ∧
        Json.read? text = some (.array objects) ∧
        Json.squeeze text = (Json.array objects).render := by
  have checked : (Schema.ofRecord .zero ticketRecord).toOption.any (fun schema =>
      schema.texts.all (fun text => text.all fun byte => decide (byte < 0x80)) &&
        decide (schema.createdAt.fault? = none ∧ schema.updatedAt.fault? = none)) = true := by
    decide +kernel
  cases accepted : Schema.ofRecord .zero ticketRecord with
  | error error => simp [accepted, Except.toOption] at checked
  | ok schema =>
      simp only [accepted, Except.toOption, Option.any_some, Bool.and_eq_true, List.all_eq_true,
        decide_eq_true_eq] at checked
      have isUtf8 : ∀ text ∈ schema.texts, text.IsUtf8 := fun text member =>
        Text.isUtf8_ascii (checked.1 text member)
      have both {property : Schema → Prop} (holds : property schema) :
          ∀ other ∈ [schema, schema], property other := by simpa using holds
      obtain ⟨objects, shown, emitted⟩ := emit_json_faithful false
        (both ⟨.zero, ticketRecord, accepted⟩) (both isUtf8) fun _ => both checked.2
      refine ⟨schema, rfl, isUtf8, checked.2, objects, shown, fun indent => ?_⟩
      obtain ⟨text, ok, read, squeezed, _⟩ := emitted indent
      exact ⟨text, ok, read, squeezed⟩

end Emitter

end EntitySchema
