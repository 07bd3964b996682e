import EntitySchema.Proofs.Yaml.Meaning

/-!
Aliases that are written out. A copy of its target in the place of an alias changes nothing but
lines where a value is read; a record of its own is not read through an alias, so a document that
is an alias, or that lists one, is refused.
-/

namespace EntitySchema

namespace Value

mutual

def withoutLines : Value → Value
  | .list items => .list (itemsWithoutLines items)
  | .record ⟨entries⟩ => .record ⟨entriesWithoutLines entries⟩
  | value => value

def itemsWithoutLines : List Value → List Value
  | [] => []
  | item :: items => item.withoutLines :: itemsWithoutLines items

def entriesWithoutLines : List (Entry Value) → List (Entry Value)
  | [] => []
  | entry :: entries => ⟨entry.key, entry.value.withoutLines, 0⟩ :: entriesWithoutLines entries

end

theorem entriesWithoutLines_append (entries others : List (Entry Value)) :
    entriesWithoutLines (entries ++ others) =
      entriesWithoutLines entries ++ entriesWithoutLines others := by
  induction entries with
  | nil => rfl
  | cons entry entries ih => simp only [List.cons_append, entriesWithoutLines, ih]

theorem keys_entriesWithoutLines (entries : List (Entry Value)) :
    (entriesWithoutLines entries).map Entry.key = entries.map Entry.key := by
  induction entries with
  | nil => rfl
  | cons entry entries ih => simp only [entriesWithoutLines, List.map_cons, ih]

end Value

/-- Both readings are refused, or both succeed with what is the same in plain form. -/
inductive Alike {α β : Type} (plain : α → β) :
    Except DecodeError α → Except DecodeError α → Prop
  | both {value other : α} : plain value = plain other → Alike plain (.ok value) (.ok other)
  | neither {error cause : DecodeError} : Alike plain (.error error) (.error cause)

namespace Record

def withoutLines (record : Record) : Record := ⟨Value.entriesWithoutLines record.entries⟩

theorem contains_eq_of_withoutLines {record other : Record}
    (same : record.withoutLines = other.withoutLines) (name : Text) :
    record.contains name = other.contains name := by
  have keys := congrArg OrderedMap.keys same
  simp only [OrderedMap.keys, withoutLines, Value.keys_entriesWithoutLines] at keys
  rw [Bool.eq_iff_iff, OrderedMap.contains_iff, OrderedMap.contains_iff]
  simp only [OrderedMap.keys, keys]

inductive FilledAlike : Record × Option DecodeError → Record × Option DecodeError → Prop
  | both {record other : Record} : record.withoutLines = other.withoutLines →
      FilledAlike (record, none) (other, none)
  | neither {record other : Record} {error cause : DecodeError} :
      FilledAlike (record, some error) (other, some cause)

end Record

namespace Yaml.Node

open Record (FilledAlike)

mutual

/--
The second node is the first with copies of their targets in the place of some aliases. An alias to
a node around it cannot be written out, so a node that holds one has no copy.
-/
inductive Expands : Node → Node → Prop
  | scalar {tag : Option Text} {style : ScalarStyle} {text : Text} {line place : Nat} :
      Expands (.scalar tag style text line) (.scalar tag style text place)
  | sequence {tag : Option Text} {items copies : List Node} {line place : Nat} :
      List.Forall₂ Expands items copies →
      Expands (.sequence tag items line) (.sequence tag copies place)
  | mapping {tag : Option Text} {pairs copies : List (Node × Node)} {line place : Nat} :
      List.Forall₂ PairExpands pairs copies →
      Expands (.mapping tag pairs line) (.mapping tag copies place)
  | reference {name label : Text} {target copy : Node} {line place serial other : Nat} :
      Expands target copy →
      Expands (.alias name target line serial) (.alias label copy place other)
  | replaced {name : Text} {target copy : Node} {line serial : Nat} :
      Expands target copy → Expands (.alias name target line serial) copy

inductive PairExpands : Node × Node → Node × Node → Prop
  | both {key keyCopy value valueCopy : Node} : Expands key keyCopy → Expands value valueCopy →
      PairExpands (key, value) (keyCopy, valueCopy)

end

def isAlias : Node → Bool
  | .alias .. => true
  | .enclosing .. => true
  | _ => false

/-- A record of its own would have to be read through an alias. -/
def ListsAlias : Node → Prop
  | .alias .. => True
  | .enclosing .. => True
  | .sequence _ items _ => ∃ item ∈ items, item.isAlias = true
  | _ => False

theorem Expands.keyText?_eq {node copy : Node} (expands : Expands node copy) :
    node.keyText? = copy.keyText? := by
  induction node generalizing copy with
  | scalar tag style text line =>
      cases expands with
      | scalar => simp only [keyText?]
  | sequence tag items line _ =>
      cases expands with
      | sequence _ => simp only [keyText?]
  | mapping tag pairs line _ =>
      cases expands with
      | mapping _ => simp only [keyText?]
  | enclosing name order line serial => cases expands
  | reference name target line serial ih =>
      rw [keyText?]
      cases expands with
      | reference inner => rw [keyText?, ih inner]
      | replaced inner => exact ih inner

theorem itemValues_alike {items copies : List Node} (expand : List.Forall₂ Expands items copies)
    (alike : ∀ item ∈ items, ∀ copy, Expands item copy →
      Alike Value.withoutLines item.toValue copy.toValue) :
    Alike Value.itemsWithoutLines (itemValues items) (itemValues copies) := by
  induction expand with
  | nil => exact .both rfl
  | @cons item copy items copies first _ ih =>
      rw [List.forall_mem_cons] at alike
      have head := alike.1 copy first
      have tail := ih alike.2
      rw [itemValues, itemValues]
      generalize item.toValue = value, copy.toValue = other at head
      generalize itemValues items = values, itemValues copies = others at tail
      cases head with
      | neither => exact .neither
      | both sameHead =>
          cases tail with
          | neither => exact .neither
          | both sameTail =>
              apply Alike.both
              simp only [Value.itemsWithoutLines, sameHead, sameTail]

theorem addPairs_alike {pairs copies : List (Node × Node)} {record other : Record}
    (expand : List.Forall₂ PairExpands pairs copies)
    (same : record.withoutLines = other.withoutLines)
    (alike : ∀ pair ∈ pairs, ∀ copy, Expands pair.2 copy →
      Alike Value.withoutLines pair.2.toValue copy.toValue) :
    FilledAlike (addPairs record pairs) (addPairs other copies) := by
  induction expand generalizing record other with
  | nil => exact .both same
  | @cons pair copy pairs copies first _ ih =>
      rw [List.forall_mem_cons] at alike
      cases first with
      | @both key keyCopy value valueCopy keyExpands valueExpands =>
          have head := alike.1 valueCopy valueExpands
          rw [addPairs, addPairs, ← keyExpands.keyText?_eq]
          cases key.keyText? with
          | none => exact .neither
          | some name =>
              dsimp only
              -- the records have the same keys, so a repetition in one is a repetition in the other
              have known := Record.contains_eq_of_withoutLines same name
              rw [OrderedMap.contains, OrderedMap.contains] at known
              cases found : record.find? name with
              | some earlier =>
                  rw [found, Option.isSome_some, eq_comm, Option.isSome_iff_exists] at known
                  obtain ⟨earlierCopy, foundCopy⟩ := known
                  rw [foundCopy]
                  exact .neither
              | none =>
                  rw [found, Option.isSome_none, eq_comm, Option.isSome_eq_false_iff,
                    Option.isNone_iff_eq_none] at known
                  rw [known]
                  generalize value.toValue = decoded, valueCopy.toValue = decodedCopy at head
                  cases head with
                  | neither => exact .neither
                  | both sameValue =>
                      apply ih _ alike.2
                      have entries := congrArg OrderedMap.entries same
                      simp only [Record.withoutLines] at entries
                      simp only [Record.withoutLines, Value.entriesWithoutLines_append, entries,
                        Value.entriesWithoutLines, sameValue]

theorem Expands.toValue_alike {node copy : Node} (expands : Expands node copy) :
    Alike Value.withoutLines node.toValue copy.toValue := by
  induction node generalizing copy with
  | scalar tag style text line =>
      cases expands with
      | scalar =>
          rw [toValue, toValue]
          split
          · exact .both rfl
          · exact .neither
  | sequence tag items line ih =>
      cases expands with
      | @sequence _ _ copies _ _ expand =>
          have alike := itemValues_alike expand fun item member copy => ih item member
          rw [toValue, toValue]
          generalize itemValues items = values, itemValues copies = others at alike
          cases alike with
          | neither => exact .neither
          | both same =>
              apply Alike.both
              rw [Value.withoutLines, Value.withoutLines, same]
  | mapping tag pairs line ih =>
      cases expands with
      | @mapping _ _ copies _ _ expand =>
          have alike : FilledAlike (addPairs {} pairs) (addPairs {} copies) :=
            addPairs_alike expand rfl fun pair member copy => (ih pair member).2
          rw [toValue, toValue]
          generalize addPairs {} pairs = outcome, addPairs {} copies = other at alike
          cases alike with
          | neither => exact .neither
          | both same =>
              apply Alike.both
              exact congrArg Value.record same
  | enclosing name order line serial => cases expands
  | reference name target line serial ih =>
      rw [toValue]
      cases expands with
      | reference inner =>
          rw [toValue]
          exact ih inner
      | replaced inner => exact ih inner

end Yaml.Node

namespace Record

open Yaml (Node)

theorem ofNode_alike {node copy : Node} (expands : node.Expands copy)
    (direct : node.isAlias = false) : Alike withoutLines (ofNode node) (ofNode copy) := by
  cases expands with
  | scalar => exact .neither
  | sequence _ => exact .neither
  | reference _ => exact .neither
  | replaced _ => simp [Node.isAlias] at direct
  | @mapping _ pairs copies _ _ expand =>
      have alike : FilledAlike (Node.addPairs {} pairs) (Node.addPairs {} copies) :=
        Node.addPairs_alike expand rfl fun pair _ copy expands => expands.toValue_alike
      rw [ofNode, ofNode, fill, fill]
      generalize Node.addPairs {} pairs = outcome, Node.addPairs {} copies = other at alike
      cases alike with
      | neither => exact .neither
      | both same => exact .both same

theorem ofNodes_alike {nodes copies : List Node} (expand : List.Forall₂ Node.Expands nodes copies)
    (direct : ∀ node ∈ nodes, node.isAlias = false) :
    Alike (List.map withoutLines) (ofNodes nodes) (ofNodes copies) := by
  induction expand with
  | nil => exact .both rfl
  | @cons node copy nodes copies first _ ih =>
      rw [List.forall_mem_cons] at direct
      have head := ofNode_alike first direct.1
      have tail := ih direct.2
      rw [ofNodes, ofNodes]
      generalize ofNode node = record, ofNode copy = recordCopy at head
      generalize ofNodes nodes = records, ofNodes copies = recordCopies at tail
      cases head with
      | neither => exact .neither
      | both sameHead =>
          cases tail with
          | neither => exact .neither
          | both sameTail =>
              apply Alike.both
              rw [List.map_cons, List.map_cons, sameHead, sameTail]

theorem ofDocument_alike {root copy : Node} (expands : root.Expands copy)
    (direct : ¬root.ListsAlias) :
    Alike (List.map withoutLines) (ofDocument root) (ofDocument copy) := by
  cases expands with
  | @scalar tag style text line place =>
      have sameNull :
          (Node.scalar tag style text place).isNull = (Node.scalar tag style text line).isNull := by
        cases tag <;> rfl
      rw [ofDocument, ofDocument, sameNull]
      · split
        · exact .both rfl
        · exact .neither
      all_goals simp
  | sequence expand =>
      apply ofNodes_alike expand
      intro item member
      by_contra reference
      exact direct ⟨item, member, by simpa using reference⟩
  | @mapping tag pairs copies line place expand =>
      have mappings : (Node.mapping tag pairs line).Expands (.mapping tag copies place) :=
        .mapping expand
      have alike := ofNode_alike mappings rfl
      rw [ofDocument, ofDocument]
      generalize ofNode (.mapping tag pairs line) = record,
        ofNode (.mapping tag copies place) = recordCopy at alike
      cases alike with
      | neither => exact .neither
      | both same =>
          apply Alike.both
          rw [List.map_singleton, List.map_singleton, same]
  | reference _ => exact absurd trivial direct
  | replaced _ => exact absurd trivial direct

theorem ofDocuments_alike {roots copies : List Node} (format : FileFormat)
    (isFirst isReadable : Bool) (expand : List.Forall₂ Node.Expands roots copies)
    (direct : ∀ root ∈ roots, ¬root.ListsAlias) :
    Alike (List.map withoutLines) (ofDocuments format isFirst isReadable roots)
      (ofDocuments format isFirst isReadable copies) := by
  induction expand generalizing isFirst with
  | nil =>
      rw [ofDocuments]
      split
      · exact .both rfl
      · exact .neither
  | @cons root copy roots copies first _ ih =>
      rw [List.forall_mem_cons] at direct
      have head := ofDocument_alike first direct.1
      have tail := ih false direct.2
      rw [ofDocuments, ofDocuments]
      by_cases second : format = .json ∧ isFirst = false
      · rw [if_pos second, if_pos second]
        exact .neither
      · rw [if_neg second, if_neg second]
        generalize ofDocument root = records, ofDocument copy = recordCopies at head
        generalize ofDocuments format false isReadable roots = others,
          ofDocuments format false isReadable copies = otherCopies at tail
        cases head with
        | neither => exact .neither
        | both sameHead =>
            cases tail with
            | neither => exact .neither
            | both sameTail =>
                apply Alike.both
                rw [List.map_append, List.map_append, sameHead, sameTail]

theorem isAlias_of_ofNode {node : Node} {record : Record} (read : ofNode node = .ok record) :
    node.isAlias = false := by
  cases node with
  | mapping tag pairs line => rfl
  | _ => simp [ofNode, fill] at read

theorem isAlias_of_ofNodes {nodes : List Node} {records : List Record}
    (read : ofNodes nodes = .ok records) : ∀ node ∈ nodes, node.isAlias = false := by
  induction nodes generalizing records with
  | nil => simp
  | cons node nodes ih =>
      rw [ofNodes] at read
      split at read
      · contradiction
      next record first =>
        split at read
        · contradiction
        next others rest => exact List.forall_mem_cons.mpr ⟨isAlias_of_ofNode first, ih rest⟩

theorem not_listsAlias_of_ofDocument {root : Node} {records : List Record}
    (read : ofDocument root = .ok records) : ¬root.ListsAlias := by
  cases root with
  | scalar tag style text line => exact id
  | mapping tag pairs line => exact id
  | sequence tag items line =>
      rintro ⟨item, member, reference⟩
      rw [isAlias_of_ofNodes read item member] at reference
      contradiction
  | _ => simp [ofDocument, Node.isNull] at read

theorem not_listsAlias_of_ofDocuments {roots : List Node} {format : FileFormat}
    {isFirst isReadable : Bool} {records : List Record}
    (read : ofDocuments format isFirst isReadable roots = .ok records) :
    ∀ root ∈ roots, ¬root.ListsAlias := by
  induction roots generalizing isFirst records with
  | nil => simp
  | cons root roots ih =>
      rw [ofDocuments] at read
      split at read
      · contradiction
      · split at read
        · contradiction
        next first =>
          split at read
          · contradiction
          next rest =>
            exact List.forall_mem_cons.mpr ⟨not_listsAlias_of_ofDocument first, ih rest⟩

/--
Writing aliases out preserves success and content exactly if no document lists an alias, or the
stream is refused in either form.
-/
theorem ofDocuments_alike_iff {roots copies : List Node}
    (expand : List.Forall₂ Node.Expands roots copies) (format : FileFormat)
    (isFirst isReadable : Bool) :
    Alike (List.map withoutLines) (ofDocuments format isFirst isReadable roots)
        (ofDocuments format isFirst isReadable copies) ↔
      (∀ root ∈ roots, ¬root.ListsAlias) ∨
        ∃ error, ofDocuments format isFirst isReadable copies = .error error := by
  constructor
  · intro alike
    cases read : ofDocuments format isFirst isReadable copies with
    | error error => exact Or.inr ⟨error, rfl⟩
    | ok records =>
        left
        rw [read] at alike
        generalize original : ofDocuments format isFirst isReadable roots = outcome at alike
        cases alike with
        | both same => exact not_listsAlias_of_ofDocuments original
  · rintro (direct | ⟨error, refused⟩)
    · exact ofDocuments_alike format isFirst isReadable expand direct
    · rw [refused]
      cases original : ofDocuments format isFirst isReadable roots with
      | error cause => exact .neither
      | ok records =>
          -- a stream that is read lists no alias, so its copy would have been read as well
          have direct := not_listsAlias_of_ofDocuments original
          have alike := ofDocuments_alike format isFirst isReadable expand direct
          rw [refused, original] at alike
          cases alike

def oneField (line : Nat) : Node :=
  .mapping none [(.scalar none .plain (utf8 "x") line, .scalar none .plain (utf8 "int") line)] line

theorem oneField_expands (line place : Nat) : (oneField line).Expands (oneField place) :=
  .mapping (.cons (.both .scalar .scalar) .nil)

theorem ofDocuments_alike_nested :
    Alike (List.map withoutLines)
      (ofDocuments .yaml true true
        [.mapping none [(.scalar none .plain (utf8 "a") 1, oneField 2),
          (.scalar none .plain (utf8 "b") 3, .alias (utf8 "r") (oneField 2) 3 0)] 1])
      (ofDocuments .yaml true true
        [.mapping none [(.scalar none .plain (utf8 "a") 1, oneField 2),
          (.scalar none .plain (utf8 "b") 3, oneField 4)] 1]) := by
  refine (ofDocuments_alike_iff ?_ .yaml true true).mpr (Or.inl ?_)
  · refine .cons (.mapping ?_) .nil
    exact .cons (.both .scalar (oneField_expands 2 2))
      (.cons (.both .scalar (.replaced (oneField_expands 2 4))) .nil)
  · simp [Node.ListsAlias]

/-- A list with an alias to one of its own records is refused, the same list written out is read. -/
theorem ofDocuments_refuses_listed :
    List.Forall₂ Node.Expands
        [.sequence none [oneField 2, .alias (utf8 "a") (oneField 2) 3 0] 1]
        [.sequence none [oneField 2, oneField 4] 1] ∧
      (ofDocuments .yaml true true
        [.sequence none [oneField 2, .alias (utf8 "a") (oneField 2) 3 0] 1]).isOk = false ∧
      (ofDocuments .yaml true true [.sequence none [oneField 2, oneField 4] 1]).isOk = true ∧
      (decode .yaml (utf8 "- &a\n  x: int\n- *a\n")).isOk = false ∧
      (decode .yaml (utf8 "- &a\n  x: int\n-\n  x: int\n")).isOk = true := by
  refine ⟨.cons (.sequence ?_) .nil, by decide +kernel, by decide +kernel, by decide +kernel,
    by decide +kernel⟩
  exact .cons (oneField_expands 2 2) (.cons (.replaced (oneField_expands 2 4)) .nil)

end Record

end EntitySchema
