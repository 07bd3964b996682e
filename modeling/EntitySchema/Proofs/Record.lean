import EntitySchema.Proofs.OrderedMap
import EntitySchema.Proofs.Text.Order
import EntitySchema.Yaml.Decode

/-!
Records in use. A record can be kept as a list of keys, a map of values and a map of lines; values
are set and documents are decoded, also half way, without these three drifting apart, and what they
tell is what an association list tells that grows at its end.
-/

namespace EntitySchema

open Yaml (Node Tree)

inductive RecordStep where
  | set (key : Text) (value : Value)
  | decode (tree : Tree)

namespace Record

def apply (record : Record) : RecordStep → Record
  | .set key value => record.set key value
  | .decode tree => (record.fillFromTree tree).1

def run (record : Record) (steps : List RecordStep) : Record := steps.foldl apply record

end Record

/-- A record as three tables: its keys in their order, a value by key, and a line by key. -/
structure RecordTables where
  keys : List Text := []
  value? : Text → Option Value := fun _ => none
  line? : Text → Option Nat := fun _ => none

namespace RecordTables

def set (tables : RecordTables) (key : Text) (value : Value) : RecordTables where
  keys := if (tables.value? key).isSome then tables.keys else tables.keys ++ [key]
  value? := fun other => if other = key then some value else tables.value? other
  line? := tables.line?

def setLine (tables : RecordTables) (key : Text) (line : Nat) : RecordTables :=
  { tables with line? := fun other => if other = key then some line else tables.line? other }

def addPairs (tables : RecordTables) : List (Node × Node) → RecordTables × Option DecodeError
  | [] => (tables, none)
  | (key, value) :: pairs =>
    match key.keyText? with
    | none => (tables, some .unreadable)
    | some name =>
      match tables.line? name with
      | some first =>
        (tables, some (.invalid { cause := .repeatedKey key.line first, field := name }))
      | none =>
        match value.toValue with
        | .error error => (tables, some error)
        | .ok decoded => addPairs ((tables.set name decoded).setLine name key.line) pairs

def fillFromTree (tables : RecordTables) (tree : Tree) : RecordTables × Option DecodeError :=
  match tree.root? with
  | some (.mapping _ pairs _) => addPairs {} pairs
  | some root => (tables, some (.mappingExpected root.line))
  | none => (tables, some (.mappingExpected tree.line))

def apply (tables : RecordTables) : RecordStep → RecordTables
  | .set key value => tables.set key value
  | .decode tree => (tables.fillFromTree tree).1

def run (tables : RecordTables) (steps : List RecordStep) : RecordTables :=
  steps.foldl apply tables

def toList (tables : RecordTables) : List (Text × Value) :=
  tables.keys.filterMap fun key => (tables.value? key).map fun value => (key, value)

def lineOf (tables : RecordTables) (key : Text) : Nat := (tables.line? key).getD 0

end RecordTables

namespace Record

def assign (pairs : List (Text × Value)) (key : Text) (value : Value) : List (Text × Value) :=
  if key ∈ pairs.map Prod.fst then
    pairs.map fun pair => if pair.1 = key then (key, value) else pair
  else pairs ++ [(key, value)]

def decoded? : RecordStep → Option Record
  | .set _ _ => none
  | .decode tree =>
    match tree.root? with
    | some (.mapping _ pairs _) => some (Node.addPairs {} pairs).1
    | _ => none

def assignStep (pairs : List (Text × Value)) (step : RecordStep) : List (Text × Value) :=
  match step with
  | .set key value => assign pairs key value
  | .decode _ => ((decoded? step).map OrderedMap.toList).getD pairs

def lastDecoded (steps : List RecordStep) : Record := (steps.filterMap decoded?).getLast?.getD {}

end Record

namespace OrderedMap

variable {map : OrderedMap Value} {key : Text} {value : Value}

theorem toList_replace {entries : List (Entry Value)} (distinct : (entries.map Entry.key).Nodup) :
    (OrderedMap.mk (replace key value entries)).toList =
      (OrderedMap.mk entries).toList.map
        fun pair => if pair.1 = key then (key, value) else pair := by
  simp only [toList]
  induction entries with
  | nil => rfl
  | cons entry entries ih =>
      rw [List.map_cons, List.nodup_cons] at distinct
      rw [replace]
      by_cases same : entry.key = key
      · have others : ∀ other ∈ entries, other.key ≠ key := by
          intro other member found
          exact distinct.1 (same ▸ found ▸ List.mem_map_of_mem member)
        rw [if_pos same]
        simp +contextual [same, others]
      · simp [same, ih distinct.2]

theorem toList_set (distinct : map.keys.Nodup) :
    (map.set key value).toList = Record.assign map.toList key value := by
  rw [Record.assign, ← keys_eq]
  by_cases known : key ∈ map.keys
  · rw [if_pos known, set, if_pos (contains_iff.mpr known)]
    exact toList_replace distinct
  · rw [if_neg known, toList_set_of_notMem known]

end OrderedMap

namespace RecordTables

variable {tables : RecordTables} {record : Record}

/-- The tables and the record have the same keys, values and lines. -/
structure Holds (tables : RecordTables) (record : Record) : Prop where
  distinct : record.keys.Nodup
  keys : tables.keys = record.keys
  value? : ∀ key, tables.value? key = record.get? key
  lineOf : ∀ key, tables.lineOf key = record.lineOf key
  lined : ∀ key, (tables.line? key).isSome = true → key ∈ tables.keys

structure Mirrors (tables : RecordTables) (record : Record) : Prop where
  distinct : record.keys.Nodup
  keys : tables.keys = record.keys
  value? : ∀ key, tables.value? key = record.get? key
  line? : ∀ key, tables.line? key = (record.find? key).map Entry.line

theorem mirrors_empty : Mirrors {} {} where
  distinct := List.nodup_nil
  keys := rfl
  value? := fun _ => rfl
  line? := fun _ => rfl

theorem Mirrors.holds (mirrors : tables.Mirrors record) : tables.Holds record where
  distinct := mirrors.distinct
  keys := mirrors.keys
  value? := mirrors.value?
  lineOf := by
    intro key
    rw [RecordTables.lineOf, mirrors.line?, OrderedMap.lineOf]
  lined := by
    intro key known
    rw [mirrors.line?, Option.isSome_map] at known
    rw [mirrors.keys]
    exact OrderedMap.contains_iff.mp known

theorem Mirrors.add (mirrors : tables.Mirrors record) {name : Text}
    (absent : record.find? name = none) (value : Value) (line : Nat) :
    ((tables.set name value).setLine name line).Mirrors
      ⟨record.entries ++ [⟨name, value, line⟩]⟩ where
  distinct := OrderedMap.nodup_keys_concat mirrors.distinct
    (OrderedMap.notMem_keys_of_find?_eq_none absent)
  keys := by
    have missing : tables.value? name = none := by
      rw [mirrors.value?, OrderedMap.get?, absent, Option.map_none]
    simp [setLine, set, missing, mirrors.keys, OrderedMap.keys]
  value? := by
    intro key
    rw [OrderedMap.get?, OrderedMap.find?_concat]
    by_cases same : key = name
    · simp [setLine, set, same, absent]
    · simp [setLine, set, same, Ne.symm same, mirrors.value?, OrderedMap.get?]
  line? := by
    intro key
    rw [OrderedMap.find?_concat]
    by_cases same : key = name
    · simp [setLine, same, absent]
    · simp [setLine, set, same, Ne.symm same, mirrors.line?]

theorem Mirrors.addPairs (mirrors : tables.Mirrors record) (pairs : List (Node × Node)) :
    (tables.addPairs pairs).1.Mirrors (Node.addPairs record pairs).1 ∧
      (tables.addPairs pairs).2 = (Node.addPairs record pairs).2 := by
  induction pairs generalizing tables record with
  | nil => exact ⟨mirrors, rfl⟩
  | cons pair pairs ih =>
      obtain ⟨key, value⟩ := pair
      rw [RecordTables.addPairs, Node.addPairs]
      cases key.keyText? with
      | none => exact ⟨mirrors, rfl⟩
      | some name =>
          simp only [mirrors.line? name]
          cases found : record.find? name with
          | some first => exact ⟨mirrors, rfl⟩
          | none =>
              cases value.toValue with
              | error error => exact ⟨mirrors, rfl⟩
              | ok decoded => exact ih (mirrors.add found decoded key.line)

theorem Holds.fillFromTree (holds : tables.Holds record) (tree : Tree) :
    (tables.fillFromTree tree).1.Holds (record.fillFromTree tree).1 ∧
      (tables.fillFromTree tree).2 = (record.fillFromTree tree).2 := by
  rw [RecordTables.fillFromTree, Record.fillFromTree]
  cases tree.root? with
  | none => exact ⟨holds, rfl⟩
  | some root =>
      cases root with
      | mapping tag pairs line =>
          obtain ⟨mirrors, same⟩ := mirrors_empty.addPairs pairs
          exact ⟨mirrors.holds, same⟩
      | scalar => exact ⟨holds, rfl⟩
      | sequence => exact ⟨holds, rfl⟩
      | «alias» => exact ⟨holds, rfl⟩
      | enclosing => exact ⟨holds, rfl⟩

theorem Holds.set (holds : tables.Holds record) (key : Text) (value : Value) :
    (tables.set key value).Holds (record.set key value) where
  distinct := OrderedMap.nodup_keys_set holds.distinct
  keys := by
    simp only [RecordTables.set, holds.value?, OrderedMap.get?_isSome_iff, holds.keys]
    split
    next known => exact (OrderedMap.keys_set_of_mem known).symm
    next fresh => exact (OrderedMap.keys_set_of_notMem fresh).symm
  value? := by
    intro other
    rw [OrderedMap.get?_set, ← holds.value?]
    rfl
  lineOf := by
    intro other
    rw [OrderedMap.lineOf_set, ← holds.lineOf]
    rfl
  lined := by
    intro other known
    have inside := holds.lined other known
    rw [RecordTables.set]
    split
    · exact inside
    · exact List.mem_append_left _ inside

theorem Holds.apply (holds : tables.Holds record) (step : RecordStep) :
    (tables.apply step).Holds (record.apply step) := by
  cases step with
  | set key value => exact holds.set key value
  | decode tree => exact (holds.fillFromTree tree).1

theorem Holds.run (holds : tables.Holds record) (steps : List RecordStep) :
    (tables.run steps).Holds (record.run steps) := by
  induction steps generalizing tables record with
  | nil => exact holds
  | cons step steps ih => exact ih (holds.apply step)

end RecordTables

inductive RecordStart where
  | empty
  | ofTable (fields : OrderedMap Value) (distinct : fields.keys.Nodup)

namespace RecordStart

def record : RecordStart → Record
  | .empty => {}
  | .ofTable fields _ => Record.ofTable fields

def tables : RecordStart → RecordTables
  | .empty => {}
  | .ofTable fields _ =>
    fields.sorted.toList.foldl (fun tables pair => tables.set pair.1 pair.2) {}

def entries : RecordStart → List (Text × Value)
  | .empty => []
  | .ofTable fields _ => fields.toList

theorem holds (start : RecordStart) : start.tables.Holds start.record := by
  have store : ∀ (pairs : List (Text × Value)) (tables : RecordTables) (record : Record),
      tables.Holds record →
        (pairs.foldl (fun tables pair => tables.set pair.1 pair.2) tables).Holds
          (pairs.foldl (fun map pair => map.set pair.1 pair.2) record) := by
    intro pairs
    induction pairs with
    | nil => exact fun tables record holds => holds
    | cons pair pairs ih => exact fun tables record holds => ih _ _ (holds.set pair.1 pair.2)
  cases start with
  | empty => exact RecordTables.mirrors_empty.holds
  | ofTable fields => exact store _ _ _ RecordTables.mirrors_empty.holds

theorem lineOf_record (start : RecordStart) (key : Text) : start.record.lineOf key = 0 := by
  have store : ∀ (pairs : List (Text × Value)) (record : Record),
      (pairs.foldl (fun map pair => map.set pair.1 pair.2) record).lineOf key =
        record.lineOf key := by
    intro pairs
    induction pairs with
    | nil => exact fun record => rfl
    | cons pair pairs ih => exact fun record => (ih _).trans (OrderedMap.lineOf_set ..)
  cases start with
  | empty => rfl
  | ofTable fields => exact store _ _

theorem keys_sorted (start : RecordStart) : start.record.keys.Pairwise (· < ·) ∧
    start.record.toList.Perm start.entries := by
  cases start with
  | empty => exact ⟨.nil, .refl _⟩
  | ofTable fields distinct =>
      have increasing := OrderedMap.increasing_keys_sorted distinct
      have apart : (fields.sorted.toList.map Prod.fst).Nodup := by
        rw [OrderedMap.keys_eq] at distinct
        exact (fields.toList_sorted.map Prod.fst).nodup_iff.mpr distinct
      have stored : (Record.ofTable fields).toList = fields.sorted.toList :=
        OrderedMap.toList_ofList apart
      refine ⟨?_, stored ▸ fields.toList_sorted⟩
      rw [OrderedMap.keys_eq] at increasing
      simpa only [record, OrderedMap.keys_eq, stored] using increasing

end RecordStart

namespace Record

/-- A record, its tables and an association list tell the same, and the tables fit together. -/
structure IsOrdered (record : Record) (tables : RecordTables) (pairs : List (Text × Value)) :
    Prop where
  distinct : tables.keys.Nodup
  stored : ∀ key, key ∈ tables.keys ↔ (tables.value? key).isSome = true
  lined : ∀ key, (tables.line? key).isSome = true → key ∈ tables.keys
  size : tables.keys.length = pairs.length ∧ record.size = pairs.length
  keys : tables.keys = pairs.map Prod.fst ∧ record.keys = pairs.map Prod.fst
  value? : ∀ key, tables.value? key = pairs.lookup key ∧ record.get? key = pairs.lookup key
  toList : tables.toList = pairs ∧ record.toList = pairs
  lineOf : ∀ key, tables.lineOf key = record.lineOf key

theorem apply_decode (record : Record) (tree : Tree) :
    record.apply (.decode tree) = (decoded? (.decode tree)).getD record := by
  simp only [apply, decoded?, fillFromTree]
  cases tree.root? with
  | none => rfl
  | some root => cases root <;> rfl

theorem keys_decoded? {step : RecordStep} {decoded : Record}
    (stored : decoded? step = some decoded) : decoded.keys.Nodup := by
  cases step with
  | set key value => simp [decoded?] at stored
  | decode tree =>
      simp only [decoded?] at stored
      split at stored
      next pairs _ _ =>
        obtain rfl := Option.some.inj stored
        exact (RecordTables.mirrors_empty.addPairs pairs).1.distinct
      next => simp at stored

theorem keys_apply {record : Record} (distinct : record.keys.Nodup) (step : RecordStep) :
    (record.apply step).keys.Nodup := by
  cases step with
  | set key value => exact OrderedMap.nodup_keys_set distinct
  | decode tree =>
      rw [apply_decode]
      cases stored : decoded? (.decode tree) with
      | none => exact distinct
      | some decoded => exact keys_decoded? stored

theorem toList_apply {record : Record} (distinct : record.keys.Nodup) (step : RecordStep) :
    (record.apply step).toList = assignStep record.toList step := by
  cases step with
  | set key value => exact OrderedMap.toList_set distinct
  | decode tree =>
      rw [apply_decode, assignStep]
      cases decoded? (.decode tree) <;> rfl

theorem toList_run {record : Record} (distinct : record.keys.Nodup) (steps : List RecordStep) :
    (record.run steps).toList = steps.foldl assignStep record.toList := by
  induction steps generalizing record with
  | nil => rfl
  | cons step steps ih =>
      rw [List.foldl_cons, ← toList_apply distinct]
      exact ih (keys_apply distinct step)

theorem lineOf_apply (record : Record) (step : RecordStep) (key : Text) :
    (record.apply step).lineOf key = ((decoded? step).getD record).lineOf key := by
  cases step with
  | set name value => exact OrderedMap.lineOf_set ..
  | decode tree => rw [apply_decode]

theorem lineOf_run (record : Record) (steps : List RecordStep) (key : Text) :
    (record.run steps).lineOf key =
      ((steps.filterMap decoded?).getLast?.getD record).lineOf key := by
  induction steps generalizing record with
  | nil => rfl
  | cons step steps ih =>
      refine (ih (record.apply step)).trans ?_
      have first := lineOf_apply record step key
      cases stored : decoded? step with
      | none =>
          rw [stored] at first
          rw [List.filterMap_cons_none stored]
          cases (steps.filterMap decoded?).getLast? with
          | none => exact first
          | some decoded => rfl
      | some decoded =>
          rw [stored] at first
          rw [List.filterMap_cons_some stored, List.getLast?_cons]
          cases (steps.filterMap decoded?).getLast? with
          | none => exact first
          | some last => rfl

theorem toList_of_holds {tables : RecordTables} {record : Record} (holds : tables.Holds record) :
    tables.toList = record.toList := by
  have found : ∀ entry ∈ record.entries,
      (record.get? entry.key).map (fun value => (entry.key, value)) =
        some (entry.key, entry.value) := by
    intro entry member
    rw [OrderedMap.get?, OrderedMap.find?_of_mem holds.distinct member]
    rfl
  rw [RecordTables.toList, holds.keys, OrderedMap.keys, List.filterMap_map, OrderedMap.toList,
    ← List.filterMap_eq_map]
  refine List.filterMap_congr fun entry member => ?_
  simp only [Function.comp_apply, holds.value?, found entry member]

theorem isOrdered_of_holds {tables : RecordTables} {record : Record}
    (holds : tables.Holds record) : IsOrdered record tables record.toList where
  distinct := holds.keys ▸ holds.distinct
  stored := by
    intro key
    rw [holds.keys, holds.value?, OrderedMap.get?_isSome_iff]
  lined := holds.lined
  size := by
    rw [holds.keys]
    simp [OrderedMap.keys, OrderedMap.toList, OrderedMap.size]
  keys := ⟨holds.keys.trans (OrderedMap.keys_eq record), OrderedMap.keys_eq record⟩
  value? := by
    intro key
    rw [holds.value?]
    exact ⟨OrderedMap.get?_eq_lookup record key, OrderedMap.get?_eq_lookup record key⟩
  toList := ⟨toList_of_holds holds, rfl⟩
  lineOf := holds.lineOf

/--
However values are set and documents are decoded, completely or in part, a record stays an
association list that grows at its end. Its lines are those of the last mapping that was decoded,
and a record made from a table begins with the keys of the table in their order.
-/
theorem run_ordered (start : RecordStart) (steps : List RecordStep) :
    IsOrdered (start.record.run steps) (start.tables.run steps)
        (steps.foldl assignStep start.record.toList) ∧
      (∀ key, (start.record.run steps).lineOf key =
        if key ∈ (lastDecoded steps).keys then (lastDecoded steps).lineOf key else 0) ∧
      start.record.keys.Pairwise (· < ·) ∧ start.record.toList.Perm start.entries := by
  refine ⟨?_, ?_, start.keys_sorted⟩
  · rw [← toList_run start.holds.distinct]
    exact isOrdered_of_holds (start.holds.run steps)
  · intro key
    rw [lineOf_run, lastDecoded]
    cases (steps.filterMap decoded?).getLast? with
    | none => simp [start.lineOf_record, OrderedMap.keys]
    | some decoded =>
        split
        · rfl
        next absent =>
          simp only [Option.getD_some] at absent ⊢
          rw [OrderedMap.lineOf, OrderedMap.find?_eq_none_of_notMem absent]
          rfl

end Record

end EntitySchema
