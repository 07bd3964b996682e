import EntitySchema.Proofs.Yaml.Exactness
import EntitySchema.Proofs.Yaml.NumberedNodes

/-!
Records that are decoded from YAML. Each of their keys stands on a line, which is the line of the
key in the text.
-/

namespace EntitySchema

open Yaml

namespace Record

/-- How a record comes from YAML: out of a file, as a whole document, or as a mapping inside one. -/
inductive IsDecoded : Record → Prop
  | file {format : FileFormat} {text : Text} {records : List Record} {record : Record}
    (decoded : decode format text = .ok records) (member : record ∈ records) : IsDecoded record
  | document {text : Text} {record : Record}
    (filled : fillFromYaml {} text = (record, none)) : IsDecoded record
  | root {text : Text} {record : Record}
    (filled : fillFromRoot {} text = (record, none)) : IsDecoded record
  | part {text : Text} {root node : Node} {record : Record} (member : root ∈ (documents text).1)
    (inside : root.HasPart node) (decoded : ofNode node = .ok record) : IsDecoded record

structure Placed (record : Record) : Prop where
  distinct : record.keys.Nodup
  lines : ∀ entry ∈ record.entries, 0 < entry.line

variable {record : Record}

theorem Placed.lineOf (placed : record.Placed) {key : Text} (known : key ∈ record.keys) :
    1 ≤ record.lineOf key := by
  have found := OrderedMap.contains_iff.mpr known
  obtain ⟨entry, same⟩ := Option.isSome_iff_exists.mp found
  have line : record.lineOf key = entry.line := by
    rw [OrderedMap.lineOf, same]
    rfl
  rw [line]
  exact placed.lines entry (OrderedMap.mem_of_find?_eq_some same).1

theorem placed_empty : Placed {} := ⟨List.nodup_nil, fun _ member => nomatch member⟩

end Record

namespace Yaml.Node

theorem Numbered.part {node part : Node} (numbered : node.Numbered) (inside : node.HasPart part) :
    part.Numbered := by
  induction inside with
  | self => exact numbered
  | reference _ ih =>
      cases numbered with
      | reference _ behind => exact ih behind
  | item member _ ih =>
      cases numbered with
      | sequence _ items => exact ih (items _ member)
  | value member _ ih =>
      cases numbered with
      | mapping _ _ values => exact ih (values _ member)

theorem Reads.placed {pairs : List (Node × Node)} {record : Record}
    (reads : Reads pairs record.entries) (keys : ∀ pair ∈ pairs, pair.1.Numbered) :
    record.Placed := by
  refine ⟨reads.distinct, fun entry member => ?_⟩
  have own : entry.line ∈ pairs.map fun pair => pair.1.line := by
    rw [reads.lines]
    exact List.mem_map_of_mem member
  obtain ⟨pair, known, same⟩ := List.mem_map.mp own
  exact same ▸ (keys pair known).line

theorem placed_addPairs {pairs : List (Node × Node)} (keys : ∀ pair ∈ pairs, pair.1.Numbered) :
    (addPairs {} pairs).1.Placed := by
  have filled := fills_addPairs_empty pairs
  generalize addPairs {} pairs = outcome at filled
  cases filled with
  | complete reads => exact reads.placed keys
  | stopped reads _ =>
      exact reads.placed fun pair member => keys pair (List.mem_append_left _ member)

end Yaml.Node

namespace Record

variable {record : Record}

theorem Placed.fill (placed : record.Placed) {node : Node}
    (known : node.Numbered) : (record.fill node).1.Placed := by
  unfold Record.fill
  split
  · cases known with
    | mapping _ keys _ => exact Node.placed_addPairs keys
  · exact placed

theorem placed_of_ofNode {node : Node} (known : node.Numbered)
    (decoded : ofNode node = .ok record) : record.Placed := by
  have filled := placed_empty.fill known
  unfold ofNode at decoded
  split at decoded
  next record' same =>
    obtain rfl := Except.ok.inj decoded
    rwa [same] at filled
  · contradiction

theorem placed_of_ofNodes {nodes : List Node} {records : List Record}
    (known : ∀ node ∈ nodes, node.Numbered) (decoded : ofNodes nodes = .ok records) :
    ∀ record ∈ records, record.Placed := by
  induction nodes generalizing records with
  | nil =>
      obtain rfl := Except.ok.inj decoded
      exact fun _ member => nomatch member
  | cons node nodes ih =>
      rw [List.forall_mem_cons] at known
      rw [ofNodes] at decoded
      split at decoded
      · contradiction
      next record first =>
        split at decoded
        · contradiction
        next others rest =>
          obtain rfl := Except.ok.inj decoded
          exact List.forall_mem_cons.mpr ⟨placed_of_ofNode known.1 first, ih known.2 rest⟩

theorem placed_of_ofDocument {root : Node} {records : List Record} (known : root.Numbered)
    (decoded : ofDocument root = .ok records) : ∀ record ∈ records, record.Placed := by
  unfold ofDocument at decoded
  split at decoded
  · split at decoded
    next record single =>
      obtain rfl := Except.ok.inj decoded
      exact List.forall_mem_singleton.mpr (placed_of_ofNode known single)
    · contradiction
  · cases known with
    | sequence _ items => exact placed_of_ofNodes items decoded
  · split at decoded
    · obtain rfl := Except.ok.inj decoded
      exact fun _ member => nomatch member
    · contradiction

theorem placed_of_ofDocuments {format : FileFormat} {isFirst isReadable : Bool}
    {roots : List Node} {records : List Record} (known : ∀ root ∈ roots, root.Numbered)
    (decoded : ofDocuments format isFirst isReadable roots = .ok records) :
    ∀ record ∈ records, record.Placed := by
  induction roots generalizing isFirst records with
  | nil =>
      rw [ofDocuments] at decoded
      split at decoded
      · obtain rfl := Except.ok.inj decoded
        exact fun _ member => nomatch member
      · contradiction
  | cons root roots ih =>
      rw [List.forall_mem_cons] at known
      rw [ofDocuments] at decoded
      split at decoded
      · contradiction
      · split at decoded
        · contradiction
        next own first =>
          split at decoded
          · contradiction
          next others rest =>
            obtain rfl := Except.ok.inj decoded
            exact List.forall_mem_append.mpr
              ⟨placed_of_ofDocument known.1 first, ih known.2 rest⟩

theorem placed_of_decode {format : FileFormat} {text : Text} {records : List Record}
    (decoded : decode format text = .ok records) : ∀ record ∈ records, record.Placed := by
  rw [decode] at decoded
  have known : ∀ root ∈ (documents text).1, root.Numbered :=
    fun root member => numbered_of_mem_documents member
  generalize documents text = outcome at decoded known
  exact placed_of_ofDocuments known decoded

theorem Placed.fillFromYaml (placed : record.Placed) (text : Text) :
    (record.fillFromYaml text).1.Placed := by
  have known : ∀ {root rest}, firstDocument? text = some (some (root, rest)) → root.Numbered :=
    numbered_of_firstDocument?
  unfold Record.fillFromYaml
  generalize firstDocument? text = first at known
  split
  · exact placed
  · exact placed
  · split
    · exact placed
    · exact placed.fill (known rfl)

theorem Placed.fillFromRoot (placed : record.Placed) (text : Text) :
    (record.fillFromRoot text).1.Placed := by
  have known : ∀ {root rest}, firstDocument? text = some (some (root, rest)) → root.Numbered :=
    numbered_of_firstDocument?
  unfold Record.fillFromRoot
  generalize firstDocument? text = first at known
  split
  · exact placed
  · exact placed
  · exact placed.fill (known rfl)

theorem IsDecoded.placed (decoded : record.IsDecoded) : record.Placed := by
  cases decoded with
  | file decoded member => exact placed_of_decode decoded record member
  | @document text _ filled =>
      have own := placed_empty.fillFromYaml text
      rwa [filled] at own
  | @root text _ filled =>
      have own := placed_empty.fillFromRoot text
      rwa [filled] at own
  | part member inside decoded =>
      exact placed_of_ofNode ((numbered_of_mem_documents member).part inside) decoded

end Record

end EntitySchema
