import EntitySchema.Directives
import EntitySchema.Proofs.Number.Exact
import EntitySchema.Proofs.OrderedMap

/-!
Directives as values. What is read from a record can be written as values again, one for each
directive that is not empty, and reading those values gives the same directives.
-/

namespace EntitySchema

namespace Value

def keys : Value → List Text
  | .record fields => fields.keys
  | .table fields => fields.keys
  | .counts fields => fields.keys
  | _ => []

end Value

namespace Directives

theorem dimensions?_eq_some_iff {value : Value} {dimensions : Int} :
    dimensions? value = some dimensions ↔
      (∃ number, asDouble? value = some number ∧ number.value? = some (dimensions : ℚ)) ∧
        Int32.minValue.toInt ≤ dimensions ∧ dimensions ≤ Int32.maxValue.toInt := by
  simp only [dimensions?, Option.bind_eq_bind, Option.bind_eq_some_iff,
    ← Binary.toInt?_eq_some_iff]
  constructor
  · rintro ⟨number, found, whole, read, range⟩
    split at range
    next fits =>
      obtain rfl := Option.some.inj range
      exact ⟨⟨number, found, read⟩, fits⟩
    next => simp at range
  · rintro ⟨⟨number, found, read⟩, fits⟩
    exact ⟨number, found, dimensions, read, if_pos fits⟩

theorem fits_of_dimensions? {value : Value} {dimensions : Int}
    (read : dimensions? value = some dimensions) :
    Int32.minValue.toInt ≤ dimensions ∧ dimensions ≤ Int32.maxValue.toInt :=
  (dimensions?_eq_some_iff.mp read).2

theorem natAbs_lt_of_fits {dimensions : Int}
    (fits : Int32.minValue.toInt ≤ dimensions ∧ dimensions ≤ Int32.maxValue.toInt) :
    dimensions.natAbs < 2 ^ 53 := by
  have range : (-2147483648) ≤ dimensions ∧ dimensions ≤ 2147483647 := fits
  omega

theorem dimensions?_integer {dimensions : Int}
    (fits : Int32.minValue.toInt ≤ dimensions ∧ dimensions ≤ Int32.maxValue.toInt) :
    dimensions? (.integer .int dimensions) = some dimensions :=
  dimensions?_eq_some_iff.mpr ⟨⟨_, rfl, Binary.value?_ofInt (natAbs_lt_of_fits fits)⟩, fits⟩

theorem exists_entries (value : Value) :
    ∃ entries : List (Text × Value), (entries.map Prod.fst).Perm value.keys ∧
      vectorList value = entries.filterMap fun entry => vector? entry.1 entry.2 := by
  have sortedKeys {α : Type} (fields : OrderedMap α) :
      (fields.sorted.toList.map Prod.fst).Perm fields.keys := by
    rw [OrderedMap.keys_eq]
    exact fields.toList_sorted.map Prod.fst
  cases value with
  | record fields => exact ⟨fields.toList, by rw [← OrderedMap.keys_eq]; exact .refl _, rfl⟩
  -- A mapping without an order is listed by its keys, which is a permutation of them.
  | table fields => exact ⟨fields.sorted.toList, sortedKeys fields, rfl⟩
  | counts fields =>
      refine ⟨fields.sorted.toList.map fun entry => (entry.1, .integer .int entry.2), ?_, ?_⟩
      · rw [List.map_map]
        exact sortedKeys fields
      · rw [vectorList, List.filterMap_map]
        rfl
  | _ => exact ⟨[], .refl _, rfl⟩

/-- What the vectors of a schema keep to: their fields are distinct, and their dimensions fit. -/
structure Regular (directives : Directives) : Prop where
  fits : ∀ vector ∈ directives.vectors,
    Int32.minValue.toInt ≤ vector.dimensions ∧ vector.dimensions ≤ Int32.maxValue.toInt
  distinct : (directives.vectors.map Embedding.field).Nodup

theorem fields_sublist (entries : List (Text × Value)) :
    ((entries.filterMap fun entry => vector? entry.1 entry.2).map Embedding.field).Sublist
      (entries.map Prod.fst) := by
  induction entries with
  | nil => exact .slnil
  | cons entry entries ih =>
      rw [List.filterMap_cons]
      cases read : dimensions? entry.2 with
      | none => simpa [vector?, read] using ih.cons entry.1
      | some dimensions => simpa [vector?, read] using ih.cons_cons entry.1

theorem Regular.vectorList {directives : Directives} {value : Value} (distinct : value.keys.Nodup) :
    Regular { directives with vectors := Directives.vectorList value } := by
  obtain ⟨entries, keys, vectors⟩ := exists_entries value
  rw [vectors]
  refine ⟨?_, (fields_sublist entries).nodup (keys.nodup_iff.mpr distinct)⟩
  intro vector member
  obtain ⟨entry, _, found⟩ := List.mem_filterMap.mp member
  obtain ⟨dimensions, read, rfl⟩ := Option.map_eq_some_iff.mp found
  exact fits_of_dimensions? read

theorem Regular.add {directives : Directives} (regular : directives.Regular) (key : Text)
    {value : Value} (distinct : value.keys.Nodup) : (directives.add key value).Regular := by
  unfold Directives.add
  split_ifs
  · split
    · exact ⟨regular.fits, regular.distinct⟩
    · exact regular
  · exact ⟨regular.fits, regular.distinct⟩
  · split
    · exact ⟨regular.fits, regular.distinct⟩
    · exact regular
  · exact .vectorList distinct
  · exact regular

theorem regular_ofRecord {record : Record}
    (distinct : ∀ entry ∈ record.toList, entry.2.keys.Nodup) : (ofRecord record).Regular := by
  have run : ∀ (entries : List (Text × Value)) (start : Directives), start.Regular →
      (∀ entry ∈ entries, entry.2.keys.Nodup) →
        (entries.foldl (fun found entry => found.add entry.1 entry.2) start).Regular := by
    intro entries
    induction entries with
    | nil => exact fun start regular _ => regular
    | cons entry entries ih =>
        intro start regular distinct
        rw [List.forall_mem_cons] at distinct
        exact ih _ (regular.add entry.1 distinct.1) distinct.2
  exact run record.toList {} ⟨by simp, by simp⟩ distinct

def namesValue (names : List Text) : Value := .list (names.map .string)

def indexValue (index : Index) : Value :=
  if index.isUnique then
    .record (.ofList [(utf8 "fields", namesValue index.fields), (utf8 "unique", .boolean true)])
  else namesValue index.fields

def vectorsValue (vectors : List Embedding) : Value :=
  .record (.ofList (vectors.map fun vector => (vector.field, .integer .int vector.dimensions)))

def entries (directives : Directives) : List (Text × Value) :=
  (if directives.partitionBy.isEmpty then []
    else [(Key.partitionBy, namesValue directives.partitionBy)]) ++
  (if directives.indexes.isEmpty then []
    else [(Key.index, .list (directives.indexes.map indexValue))]) ++
  (if directives.fullText.isEmpty then []
    else [(Key.fullText, namesValue directives.fullText)]) ++
  (if directives.vectors.isEmpty then []
    else [(Key.vector, vectorsValue directives.vectors)])

theorem stringList?_namesValue (names : List Text) :
    stringList? (namesValue names) = some names := by
  rw [namesValue, stringList?]
  induction names with
  | nil => rfl
  | cons name names ih => simp [List.mapM_cons, asString?, ih]

theorem index?_indexValue (index : Index) : index? (indexValue index) = some index := by
  obtain ⟨fields, isUnique⟩ := index
  cases isUnique with
  | false => simp [indexValue, index?, stringList?_namesValue]
  | true =>
      have names := stringList?_namesValue fields
      have listed : (OrderedMap.ofList [(utf8 "fields", namesValue fields),
          (utf8 "unique", .boolean true)]).get? (utf8 "fields") = some (namesValue fields) := rfl
      have marked : (OrderedMap.ofList [(utf8 "fields", namesValue fields),
          (utf8 "unique", .boolean true)]).get? (utf8 "unique") = some (.boolean true) := rfl
      have noList (entries : OrderedMap Value) : stringList? (.record entries) = none := rfl
      simp [indexValue, index?, noList, indexEntries?, listed, marked, names, isTrue]

theorem vectorList_vectorsValue {directives : Directives} (regular : directives.Regular) :
    vectorList (vectorsValue directives.vectors) = directives.vectors := by
  have keys : ((directives.vectors.map fun vector =>
      (vector.field, Value.integer .int vector.dimensions)).map Prod.fst).Nodup := by
    rw [List.map_map]
    exact regular.distinct
  rw [vectorsValue, vectorList, OrderedMap.toList_ofList keys, List.filterMap_map]
  have read : ∀ vector ∈ directives.vectors,
      vector? vector.field (.integer .int vector.dimensions) = some vector := by
    intro vector member
    rw [vector?, dimensions?_integer (regular.fits vector member), Option.map_some]
  exact (List.filterMap_congr read).trans List.filterMap_some

theorem foldl_part {found result : Directives} {key : Text} {value : Value} {isEmpty : Bool}
    (written : found.add key value = result) (empty : isEmpty = true → found = result) :
    (if isEmpty then [] else [(key, value)]).foldl
      (fun found entry => found.add entry.1 entry.2) found = result := by
  cases isEmpty with
  | false => simpa using written
  | true => exact empty rfl

theorem foldl_entries {directives : Directives} (regular : directives.Regular) :
    directives.entries.foldl (fun found entry => found.add entry.1 entry.2) {} = directives := by
  have indexesRead :
      indexList (.list (directives.indexes.map indexValue)) = directives.indexes := by
    rw [indexList, List.filterMap_map]
    exact (List.filterMap_congr fun index _ => index?_indexValue index).trans List.filterMap_some
  have vectorsRead := vectorList_vectorsValue regular
  obtain ⟨partitionBy, indexes, fullText, vectors⟩ := directives
  have names := stringList?_namesValue
  have first : add {} Key.partitionBy (namesValue partitionBy) =
      { partitionBy := partitionBy } := by
    rw [add, if_pos rfl, names]
  have second : add { partitionBy := partitionBy } Key.index (.list (indexes.map indexValue)) =
      { partitionBy := partitionBy, indexes := indexes } := by
    rw [add, if_neg (by decide), if_pos rfl, indexesRead]
  have third : add { partitionBy := partitionBy, indexes := indexes } Key.fullText
      (namesValue fullText) =
        { partitionBy := partitionBy, indexes := indexes, fullText := fullText } := by
    rw [add, if_neg (by decide), if_neg (by decide), if_pos rfl, names]
  have fourth : add { partitionBy := partitionBy, indexes := indexes, fullText := fullText }
      Key.vector (vectorsValue vectors) = ⟨partitionBy, indexes, fullText, vectors⟩ := by
    rw [add, if_neg (by decide), if_neg (by decide), if_neg (by decide), if_pos rfl, vectorsRead]
  simp only [entries, List.foldl_append]
  rw [foldl_part first (by simp +contextual), foldl_part second (by simp +contextual),
    foldl_part third (by simp +contextual), foldl_part fourth (by simp +contextual)]

theorem entries_keys (directives : Directives) :
    (directives.entries.map Prod.fst).Sublist
      [Key.partitionBy, Key.index, Key.fullText, Key.vector] := by
  have optional (isEmpty : Bool) (key : Text) (value : Value) :
      ((if isEmpty then [] else [(key, value)]).map Prod.fst).Sublist [key] := by
    cases isEmpty <;> simp
  simp only [entries, List.map_append]
  exact (((optional _ _ _).append (optional _ _ _)).append (optional _ _ _)).append (optional _ _ _)

end Directives

end EntitySchema
