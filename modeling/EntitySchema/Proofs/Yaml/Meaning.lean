import EntitySchema.Proofs.OrderedMap
import EntitySchema.Yaml.Decode
import Mathlib.Data.List.Forall2

/-!
What YAML nodes stand for, said without an order of evaluation: a node denotes a value, or it fails
with an error, and a record that is filled from pairs holds those in front of the first that fails.
-/

namespace EntitySchema

namespace Yaml.Node

@[elab_as_elim, induction_eliminator]
theorem induct {motive : Node → Prop}
    (scalar : ∀ tag style text line, motive (.scalar tag style text line))
    (sequence : ∀ tag items line, (∀ item ∈ items, motive item) →
      motive (.sequence tag items line))
    (mapping : ∀ tag pairs line, (∀ pair ∈ pairs, motive pair.1 ∧ motive pair.2) →
      motive (.mapping tag pairs line))
    (reference : ∀ name target line serial, motive target →
      motive (.alias name target line serial))
    (enclosing : ∀ name order line serial, motive (.enclosing name order line serial))
    (node : Node) : motive node :=
  @Node.rec motive (fun items => ∀ item ∈ items, motive item)
    (fun pairs => ∀ pair ∈ pairs, motive pair.1 ∧ motive pair.2)
    (fun pair => motive pair.1 ∧ motive pair.2) scalar sequence mapping reference enclosing
    (List.forall_mem_nil _) (fun _ _ first others => List.forall_mem_cons.mpr ⟨first, others⟩)
    (List.forall_mem_nil _) (fun _ _ first others => List.forall_mem_cons.mpr ⟨first, others⟩)
    (fun _ _ key value => ⟨key, value⟩) node

/-- A mapping denotes its keys, values and lines in the order of its pairs. -/
inductive Denotes : Node → Value → Prop
  | scalar {tag : Option Text} {style : ScalarStyle} {text : Text} {line : Nat} {value : Value} :
      scalarValue? tag style text = some value → Denotes (.scalar tag style text line) value
  | reference {name : Text} {target : Node} {line serial : Nat} {value : Value} :
      Denotes target value → Denotes (.alias name target line serial) value
  | sequence {tag : Option Text} {items : List Node} {line : Nat} {values : List Value} :
      List.Forall₂ Denotes items values → Denotes (.sequence tag items line) (.list values)
  | mapping {tag : Option Text} {pairs : List (Node × Node)} {line : Nat}
      {entries : List (Entry Value)} :
      (pairs.map fun pair => pair.1.keyText?) = (entries.map fun entry => some entry.key) →
      List.Forall₂ Denotes (pairs.map Prod.snd) (entries.map Entry.value) →
      (pairs.map fun pair => pair.1.line) = entries.map Entry.line →
      (entries.map Entry.key).Nodup → Denotes (.mapping tag pairs line) (.record ⟨entries⟩)

structure Reads (pairs : List (Node × Node)) (entries : List (Entry Value)) : Prop where
  keys : (pairs.map fun pair => pair.1.keyText?) = entries.map fun entry => some entry.key
  values : List.Forall₂ Denotes (pairs.map Prod.snd) (entries.map Entry.value)
  lines : (pairs.map fun pair => pair.1.line) = entries.map Entry.line
  distinct : (entries.map Entry.key).Nodup

mutual

/-- Decoding stops at the first part that cannot be decoded, in the order of the document. -/
inductive Fails : Node → DecodeError → Prop
  | scalar {tag : Option Text} {style : ScalarStyle} {text : Text} {line : Nat} :
      scalarValue? tag style text = none → Fails (.scalar tag style text line) .unreadable
  | reference {name : Text} {target : Node} {line serial : Nat} {error : DecodeError} :
      Fails target error → Fails (.alias name target line serial) error
  | enclosing {name : Text} {order line serial : Nat} :
      Fails (.enclosing name order line serial) .endless
  | sequence {tag : Option Text} {done rest : List Node} {item : Node} {line : Nat}
      {values : List Value} {error : DecodeError} : List.Forall₂ Denotes done values →
      Fails item error → Fails (.sequence tag (done ++ item :: rest) line) error
  | mapping {tag : Option Text} {done rest : List (Node × Node)} {key value : Node} {line : Nat}
      {entries : List (Entry Value)} {error : DecodeError} : Reads done entries →
      PairFails entries key value error →
      Fails (.mapping tag (done ++ (key, value) :: rest) line) error

inductive PairFails : List (Entry Value) → Node → Node → DecodeError → Prop
  | key {entries : List (Entry Value)} {key value : Node} : key.keyText? = none →
      PairFails entries key value .unreadable
  | repeated {entries : List (Entry Value)} {key value : Node} {first : Entry Value} :
      first ∈ entries → key.keyText? = some first.key →
      PairFails entries key value
        (.invalid { cause := .repeatedKey key.line first.line, field := first.key })
  | value {entries : List (Entry Value)} {key value : Node} {name : Text} {error : DecodeError} :
      key.keyText? = some name → name ∉ entries.map Entry.key → Fails value error →
      PairFails entries key value error

end

def Explains (node : Node) : Except DecodeError Value → Prop
  | .ok value => node.Denotes value
  | .error error => node.Fails error

/-- A record filled from pairs: all of them are in it, or those in front of one that fails. -/
inductive Fills : List (Node × Node) → Record × Option DecodeError → Prop
  | complete {pairs : List (Node × Node)} {record : Record} : Reads pairs record.entries →
      Fills pairs (record, none)
  | stopped {done rest : List (Node × Node)} {key value : Node} {record : Record}
      {error : DecodeError} : Reads done record.entries →
      PairFails record.entries key value error →
      Fills (done ++ (key, value) :: rest) (record, some error)

theorem reads_nil : Reads [] [] :=
  ⟨rfl, .nil, rfl, List.nodup_nil⟩

theorem Reads.concat {done : List (Node × Node)} {entries : List (Entry Value)}
    (reads : Reads done entries) {key value : Node} {name : Text} {decoded : Value}
    (named : key.keyText? = some name) (fresh : name ∉ entries.map Entry.key)
    (denotes : value.Denotes decoded) :
    Reads (done ++ [(key, value)]) (entries ++ [⟨name, decoded, key.line⟩]) := by
  constructor
  · simp only [List.map_append, reads.keys, List.map_cons, List.map_nil, named]
  · rw [List.map_append, List.map_append]
    exact List.rel_append reads.values (.cons denotes .nil)
  · simp only [List.map_append, reads.lines, List.map_cons, List.map_nil]
  · exact OrderedMap.nodup_keys_concat reads.distinct fresh

theorem fills_addPairs {done rest : List (Node × Node)} {entries : List (Entry Value)}
    (before : Reads done entries) (explained : ∀ pair ∈ rest, pair.2.Explains pair.2.toValue) :
    Fills (done ++ rest) (addPairs ⟨entries⟩ rest) := by
  -- `before` is the invariant: it grows by one pair in each round that goes on
  induction rest generalizing done entries with
  | nil =>
      rw [List.append_nil, addPairs]
      exact .complete before
  | cons pair rest ih =>
      obtain ⟨key, value⟩ := pair
      rw [List.forall_mem_cons] at explained
      obtain ⟨valueExplained, restExplained⟩ := explained
      rw [addPairs]
      split
      next unnamed => exact .stopped before (.key unnamed)
      next name named =>
        split
        next first found =>
          obtain ⟨member, rfl⟩ := OrderedMap.mem_of_find?_eq_some found
          exact .stopped before (.repeated member named)
        next absent =>
          have fresh : name ∉ entries.map Entry.key :=
            OrderedMap.notMem_keys_of_find?_eq_none absent
          split
          next error failed =>
            rw [failed] at valueExplained
            exact .stopped before (.value named fresh valueExplained)
          next decoded succeeded =>
            rw [succeeded] at valueExplained
            have grown := before.concat named fresh valueExplained
            have filled := ih grown restExplained
            rwa [List.append_assoc, List.singleton_append] at filled

theorem itemValues_explained {items : List Node}
    (explained : ∀ item ∈ items, item.Explains item.toValue) :
    (∃ values, itemValues items = .ok values ∧ List.Forall₂ Denotes items values) ∨
      ∃ done item rest values error, items = done ++ item :: rest ∧
        itemValues items = .error error ∧ List.Forall₂ Denotes done values ∧
        item.Fails error := by
  induction items with
  | nil => exact Or.inl ⟨[], rfl, .nil⟩
  | cons item items ih =>
      rw [List.forall_mem_cons] at explained
      obtain ⟨first, others⟩ := explained
      rw [itemValues]
      cases read : item.toValue with
      | error error =>
          rw [read] at first
          exact Or.inr ⟨[], item, items, [], error, rfl, rfl, .nil, first⟩
      | ok value =>
          rw [read] at first
          rcases ih others with ⟨values, same, denote⟩ |
            ⟨done, stop, rest, values, error, rfl, same, denote, fails⟩
          · rw [same]
            exact Or.inl ⟨value :: values, rfl, .cons first denote⟩
          · rw [same]
            exact Or.inr ⟨item :: done, stop, rest, value :: values, error, rfl, rfl,
              .cons first denote, fails⟩

theorem explains_mapping {pairs : List (Node × Node)} (tag : Option Text) (line : Nat)
    (filled : Fills pairs (addPairs {} pairs)) :
    (Node.mapping tag pairs line).Explains (Node.mapping tag pairs line).toValue := by
  rw [toValue]
  generalize addPairs {} pairs = outcome at filled ⊢
  cases filled with
  | complete reads => exact .mapping reads.keys reads.values reads.lines reads.distinct
  | stopped reads fails => exact .mapping reads fails

/-- Every node denotes the value it is decoded to, or fails with the error it is refused with. -/
theorem explains_toValue (node : Node) : node.Explains node.toValue := by
  induction node with
  | scalar tag style text line =>
      rw [toValue]
      split
      next value found => exact .scalar found
      next missing => exact .scalar missing
  | sequence tag items line ih =>
      rw [toValue]
      rcases itemValues_explained ih with ⟨values, same, denote⟩ |
        ⟨done, item, rest, values, error, rfl, same, denote, fails⟩
      · rw [same]
        exact .sequence denote
      · rw [same]
        exact .sequence denote fails
  | mapping tag pairs line ih =>
      have filled : Fills pairs (addPairs {} pairs) :=
        fills_addPairs reads_nil fun pair member => (ih pair member).2
      exact explains_mapping tag line filled
  | enclosing name order line serial =>
      rw [toValue]
      exact .enclosing
  | reference name target line serial ih =>
      rw [toValue]
      cases read : target.toValue with
      | ok value =>
          rw [read] at ih
          exact .reference ih
      | error error =>
          rw [read] at ih
          exact .reference ih

end Yaml.Node

end EntitySchema
