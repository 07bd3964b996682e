import EntitySchema.Proofs.Directives

/-!
A directive means the same in each of its forms: typed lists and tables, as a program builds them,
are read like the plain lists and records of a file, wherever they stand. What is read from a
record is decided by the values under the keys of the directives alone.
-/

namespace EntitySchema.Directives

inductive Place where
  | names
  | indexes
  | index
  | vectors

def places : List (Text × Place) :=
  [(Key.partitionBy, .names), (Key.index, .indexes), (Key.fullText, .names),
    (Key.vector, .vectors)]

/-- One value in two forms, by any number of replacements at this place or inside it. -/
inductive SameForm : Place → Value → Value → Prop
  | refl {place} (value) : SameForm place value value
  | symm {place left right} : SameForm place left right → SameForm place right left
  | trans {place left middle right} : SameForm place left middle → SameForm place middle right →
      SameForm place left right
  | names (names) : SameForm .names (.strings names) (namesValue names)
  | nameLists (lists) :
      SameForm .indexes (.stringLists lists) (.list (lists.map namesValue))
  | item {left right} (front back) : SameForm .index left right →
      SameForm .indexes (.list (front ++ left :: back)) (.list (front ++ right :: back))
  | index (names) : SameForm .index (.strings names) (namesValue names)
  | indexTable {fields record : OrderedMap Value} : fields.keys.Nodup →
      record.toList.Perm fields.toList → SameForm .index (.table fields) (.record record)
  | fieldsOfTable {fields : OrderedMap Value} (names) :
      fields.get? (utf8 "fields") = some (.strings names) →
      SameForm .index (.table fields) (.table (fields.set (utf8 "fields") (namesValue names)))
  | fieldsOfRecord {record : OrderedMap Value} (names) :
      record.get? (utf8 "fields") = some (.strings names) →
      SameForm .index (.record record) (.record (record.set (utf8 "fields") (namesValue names)))
  | vectorTable {fields record : OrderedMap Value} : record.keys.Pairwise (· < ·) →
      record.toList.Perm fields.toList → SameForm .vectors (.table fields) (.record record)
  | vectorCounts {fields : OrderedMap Int} {record : OrderedMap Value} :
      record.keys.Pairwise (· < ·) →
      record.toList.Perm (fields.toList.map fun entry => (entry.1, .integer .int entry.2)) →
      SameForm .vectors (.counts fields) (.record record)

def Place.ReadsAlike (left right : Value) : Place → Prop
  | .names => stringList? left = stringList? right
  | .indexes => indexList left = indexList right
  | .index => index? left = index? right
  | .vectors => vectorList left = vectorList right

theorem index?_namesValue (names : List Text) :
    index? (namesValue names) = some { fields := names } := by
  rw [index?, stringList?_namesValue]

theorem index?_congr {left right : Value} {leftEntries rightEntries : OrderedMap Value}
    (leftHolds : stringList? left = none ∧ indexEntries? left = some leftEntries)
    (rightHolds : stringList? right = none ∧ indexEntries? right = some rightEntries)
    (fields : (leftEntries.get? (utf8 "fields")).bind stringList? =
      (rightEntries.get? (utf8 "fields")).bind stringList?)
    (unique : leftEntries.get? (utf8 "unique") = rightEntries.get? (utf8 "unique")) :
    index? left = index? right := by
  simp only [index?, leftHolds, rightHolds, Option.bind_eq_bind, Option.bind_some, fields, unique]

section Replaced

variable {entries : OrderedMap Value} {names : List Text}

theorem fields_of_set (listed : entries.get? (utf8 "fields") = some (.strings names)) :
    (entries.get? (utf8 "fields")).bind stringList? =
      ((entries.set (utf8 "fields") (namesValue names)).get? (utf8 "fields")).bind
        stringList? := by
  rw [OrderedMap.get?_set, if_pos rfl, listed, Option.bind_some, Option.bind_some,
    stringList?_namesValue, stringList?]

theorem unique_of_set (entries : OrderedMap Value) (names : List Text) :
    entries.get? (utf8 "unique") =
      (entries.set (utf8 "fields") (namesValue names)).get? (utf8 "unique") := by
  rw [OrderedMap.get?_set, if_neg (by decide)]

end Replaced

theorem SameForm.readsAlike {place : Place} {left right : Value}
    (same : SameForm place left right) : place.ReadsAlike left right := by
  induction same with
  | @refl place value => cases place <;> rfl
  | @symm place left right _ ih => cases place <;> exact ih.symm
  | @trans place left middle right _ _ first second =>
      cases place <;> exact first.trans second
  | names names => exact (stringList?_namesValue names).symm
  | nameLists lists =>
      change indexList (.stringLists lists) = indexList (.list (lists.map namesValue))
      rw [indexList, indexList, List.filterMap_map]
      induction lists with
      | nil => rfl
      | cons names lists ih =>
          rw [List.map_cons, List.filterMap_cons, Function.comp_apply, index?_namesValue, ih]
  | item front back _ ih =>
      have alike : index? _ = index? _ := ih
      simp only [Place.ReadsAlike, indexList, List.filterMap_append, List.filterMap_cons, alike]
  | index names => exact (index?_namesValue names).symm
  | @indexTable fields record distinct permuted =>
      have found := OrderedMap.get?_of_perm distinct permuted
      refine index?_congr ⟨rfl, rfl⟩ ⟨rfl, rfl⟩ ?_ (found _).symm
      rw [found]
  | fieldsOfTable _ listed =>
      exact index?_congr ⟨rfl, rfl⟩ ⟨rfl, rfl⟩ (fields_of_set listed) (unique_of_set _ _)
  | fieldsOfRecord _ listed =>
      exact index?_congr ⟨rfl, rfl⟩ ⟨rfl, rfl⟩ (fields_of_set listed) (unique_of_set _ _)
  | @vectorTable fields record increasing permuted =>
      rw [OrderedMap.keys_eq] at increasing
      have sorted := OrderedMap.toList_sorted_eq id increasing (by simpa using permuted)
      rw [Place.ReadsAlike, vectorList, vectorList, ← sorted]
      simp
  | @vectorCounts fields record increasing permuted =>
      rw [OrderedMap.keys_eq] at increasing
      have sorted := OrderedMap.toList_sorted_eq (Value.integer .int) increasing permuted
      rw [Place.ReadsAlike, vectorList, vectorList, ← sorted, List.filterMap_map]
      rfl

/-- Each key decides one part of the directives. -/
theorem add_eq (directives : Directives) (key : Text) (value : Value) :
    directives.add key value =
      { partitionBy := if key = Key.partitionBy then
          (stringList? value).getD directives.partitionBy else directives.partitionBy
        indexes := if key = Key.index then indexList value else directives.indexes
        fullText := if key = Key.fullText then
          (stringList? value).getD directives.fullText else directives.fullText
        vectors := if key = Key.vector then vectorList value else directives.vectors } := by
  unfold add
  by_cases isPartition : key = Key.partitionBy
  · subst isPartition
    rw [if_pos rfl, if_pos rfl, if_neg (by decide), if_neg (by decide), if_neg (by decide)]
    cases stringList? value <;> rfl
  · rw [if_neg isPartition, if_neg isPartition]
    by_cases isIndex : key = Key.index
    · subst isIndex
      rw [if_pos rfl, if_pos rfl, if_neg (by decide), if_neg (by decide)]
    · rw [if_neg isIndex, if_neg isIndex]
      by_cases isFullText : key = Key.fullText
      · subst isFullText
        rw [if_pos rfl, if_pos rfl, if_neg (by decide)]
        cases stringList? value <;> rfl
      · rw [if_neg isFullText, if_neg isFullText]
        by_cases isVector : key = Key.vector
        · rw [if_pos isVector, if_pos isVector]
        · rw [if_neg isVector, if_neg isVector]

theorem part_foldl {β : Type} (part : Directives → β) (own : Text) (read : Value → β → β)
    (step : ∀ directives key value,
      part (add directives key value) =
        if key = own then read value (part directives) else part directives)
    {entries : List (Text × Value)} (distinct : (entries.map Prod.fst).Nodup)
    (start : Directives) :
    part (entries.foldl (fun directives entry => directives.add entry.1 entry.2) start) =
      ((entries.lookup own).map fun value => read value (part start)).getD (part start) := by
  induction entries generalizing start with
  | nil => rfl
  | cons entry entries ih =>
      obtain ⟨key, value⟩ := entry
      rw [List.map_cons, List.nodup_cons] at distinct
      rw [List.foldl_cons, ih distinct.2, step]
      by_cases same : key = own
      · have gone : entries.lookup own = none := by
          rw [List.lookup_eq_none_iff]
          intro other member
          have different : key ≠ other.1 := by
            intro again
            exact distinct.1 (List.mem_map.mpr ⟨other, member, again.symm⟩)
          simpa [← same] using different
        simp [gone, same]
      · simp [same, List.lookup_cons, beq_false_of_ne (Ne.symm same)]

section Parts

variable {record : Record} (distinct : record.keys.Nodup)
include distinct

theorem part_ofRecord {β : Type} (part : Directives → β) (own : Text) (read : Value → β → β)
    (step : ∀ directives key value,
      part (add directives key value) =
        if key = own then read value (part directives) else part directives) :
    part (ofRecord record) =
      ((record.get? own).map fun value => read value (part {})).getD (part {}) := by
  rw [OrderedMap.keys_eq] at distinct
  rw [ofRecord, part_foldl part own read step distinct, OrderedMap.get?_eq_lookup]

theorem partitionBy_ofRecord : (ofRecord record).partitionBy =
    ((record.get? Key.partitionBy).map fun value => (stringList? value).getD []).getD [] :=
  part_ofRecord distinct Directives.partitionBy Key.partitionBy
    (fun value names => (stringList? value).getD names) fun directives key value => by rw [add_eq]

theorem indexes_ofRecord : (ofRecord record).indexes =
    ((record.get? Key.index).map indexList).getD [] :=
  part_ofRecord distinct Directives.indexes Key.index (fun value _ => indexList value)
    fun directives key value => by rw [add_eq]

theorem fullText_ofRecord : (ofRecord record).fullText =
    ((record.get? Key.fullText).map fun value => (stringList? value).getD []).getD [] :=
  part_ofRecord distinct Directives.fullText Key.fullText
    (fun value names => (stringList? value).getD names) fun directives key value => by rw [add_eq]

theorem vectors_ofRecord : (ofRecord record).vectors =
    ((record.get? Key.vector).map vectorList).getD [] :=
  part_ofRecord distinct Directives.vectors Key.vector (fun value _ => vectorList value)
    fun directives key value => by rw [add_eq]

end Parts

theorem map_eq_of_rel {β : Type} {place : Place} {left right : Option Value} (read : Value → β)
    (reads : ∀ {left right}, place.ReadsAlike left right → read left = read right)
    (same : Option.Rel (SameForm place) left right) : left.map read = right.map read := by
  cases same with
  | some alike => exact congrArg some (reads alike.readsAlike)
  | none => rfl

/-- Two records that hold each directive in some form hold the same directives. -/
theorem ofRecord_eq_of_sameForm {left right : Record} (leftDistinct : left.keys.Nodup)
    (rightDistinct : right.keys.Nodup)
    (same : ∀ key place, (key, place) ∈ places →
      Option.Rel (SameForm place) (left.get? key) (right.get? key)) :
    ofRecord left = ofRecord right := by
  have names {key : Text} (listed : (key, .names) ∈ places) :
      (left.get? key).map (fun value => (stringList? value).getD []) =
        (right.get? key).map fun value => (stringList? value).getD [] := by
    apply map_eq_of_rel _ _ (same key .names listed)
    intro left right alike
    rw [show stringList? left = stringList? right from alike]
  have indexes := map_eq_of_rel indexList id (same Key.index .indexes (by simp [places]))
  have vectors := map_eq_of_rel vectorList id (same Key.vector .vectors (by simp [places]))
  calc ofRecord left
      = ⟨(ofRecord left).partitionBy, (ofRecord left).indexes, (ofRecord left).fullText,
          (ofRecord left).vectors⟩ := rfl
    _ = ⟨(ofRecord right).partitionBy, (ofRecord right).indexes, (ofRecord right).fullText,
          (ofRecord right).vectors⟩ := by
        rw [partitionBy_ofRecord leftDistinct, partitionBy_ofRecord rightDistinct,
          indexes_ofRecord leftDistinct, indexes_ofRecord rightDistinct,
          fullText_ofRecord leftDistinct, fullText_ofRecord rightDistinct,
          vectors_ofRecord leftDistinct, vectors_ofRecord rightDistinct,
          names (by simp [places]), names (by simp [places]), indexes, vectors]
    _ = ofRecord right := rfl

def typedRecord : Record :=
  .ofList [(Key.index, .list [.table (.ofList [(utf8 "unique", .boolean true),
      (utf8 "fields", .strings [utf8 "a", utf8 "b"])]), .strings [utf8 "b"]]),
    (utf8 "a", .string (utf8 "int")),
    (Key.vector, .counts (.ofList [(utf8 "w", 3), (utf8 "v", 2)])),
    (Key.partitionBy, .strings [utf8 "a"])]

def plainRecord : Record :=
  .ofList [(Key.partitionBy, namesValue [utf8 "a"]),
    (Key.vector, .record (.ofList [(utf8 "v", .integer .int 2), (utf8 "w", .integer .int 3)])),
    (Key.index, .list [.record (.ofList [(utf8 "fields", namesValue [utf8 "a", utf8 "b"]),
      (utf8 "unique", .boolean true)]), namesValue [utf8 "b"]])]

theorem ofRecord_eq_of_sameForm_typed : typedRecord.keys.Nodup ∧ plainRecord.keys.Nodup ∧
    (∀ key place, (key, place) ∈ places →
      Option.Rel (SameForm place) (typedRecord.get? key) (plainRecord.get? key)) ∧
    ofRecord typedRecord = ofRecord plainRecord := by
  have typedDistinct : typedRecord.keys.Nodup := by decide
  have plainDistinct : plainRecord.keys.Nodup := by decide
  have same : ∀ key place, (key, place) ∈ places →
      Option.Rel (SameForm place) (typedRecord.get? key) (plainRecord.get? key) := by
    intro key place listed
    simp only [places, List.mem_cons, Prod.mk.injEq, List.not_mem_nil, or_false] at listed
    rcases listed with ⟨rfl, rfl⟩ | ⟨rfl, rfl⟩ | ⟨rfl, rfl⟩ | ⟨rfl, rfl⟩
    · exact .some (.names [utf8 "a"])
    · refine .some (.trans (.item [] [.strings [utf8 "b"]] ?_)
        (.item [.record (.ofList [(utf8 "fields", namesValue [utf8 "a", utf8 "b"]),
          (utf8 "unique", .boolean true)])] [] (.index [utf8 "b"])))
      refine .trans (.fieldsOfTable [utf8 "a", utf8 "b"] rfl) (.indexTable (by decide) ?_)
      exact .swap _ _ []
    · exact .none
    · refine .some (.vectorCounts (by decide) ?_)
      exact .swap _ _ []
  exact ⟨typedDistinct, plainDistinct, same,
    ofRecord_eq_of_sameForm typedDistinct plainDistinct same⟩

end EntitySchema.Directives
