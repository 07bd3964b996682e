import EntitySchema.Proofs.Yaml.Meaning
import Mathlib.Data.List.Nodup

/-!
Filling a record from a mapping is exact. It succeeds if every part of the mapping is sound, and the
record then says what the mapping says; if it fails, the record holds the pairs in front of the
first that cannot be decoded.
-/

namespace EntitySchema

namespace DecodeError

def kind? : DecodeError → Option ErrorKind
  | .unreadable => none
  | .invalid error => some error.kind
  | .mappingExpected _ => some .invalidRecord
  | .recordsExpected _ => some .invalidRecord
  | .severalDocuments => some .invalidRecord
  | .unsupportedFormat _ => none
  | .endless => none

end DecodeError

namespace Yaml.Node

/-- The nodes that the value of a node is made of; keys are not among them. -/
inductive HasPart : Node → Node → Prop
  | self {node : Node} : HasPart node node
  | reference {name : Text} {target part : Node} {line serial : Nat} :
      HasPart target part → HasPart (.alias name target line serial) part
  | item {tag : Option Text} {items : List Node} {item part : Node} {line : Nat} :
      item ∈ items → HasPart item part → HasPart (.sequence tag items line) part
  | value {tag : Option Text} {pairs : List (Node × Node)} {pair : Node × Node} {part : Node}
      {line : Nat} : pair ∈ pairs → HasPart pair.2 part → HasPart (.mapping tag pairs line) part

/--
What a node must be by itself: a scalar fits its tag, keys are distinct texts, and no alias leads
back to a node around it.
-/
def Sound : Node → Prop
  | .scalar tag style text _ => (scalarValue? tag style text).isSome = true
  | .mapping _ pairs _ => (∀ pair ∈ pairs, pair.1.keyText?.isSome = true) ∧
    (pairs.map fun pair => pair.1.keyText?).Nodup
  | .enclosing .. => False
  | _ => True

theorem exists_denoted {items : List Node} {values : List Value}
    (denote : List.Forall₂ Denotes items values) :
    ∀ item ∈ items, ∃ value, item.Denotes value := by
  induction denote with
  | nil => simp
  | cons first _ ih => exact List.forall_mem_cons.mpr ⟨⟨_, first⟩, ih⟩

theorem Reads.sound {pairs : List (Node × Node)} {entries : List (Entry Value)}
    (reads : Reads pairs entries) (tag : Option Text) (line : Nat) :
    (Node.mapping tag pairs line).Sound := by
  constructor
  · intro pair member
    have inside : pair.1.keyText? ∈ pairs.map fun pair => pair.1.keyText? :=
      List.mem_map_of_mem member
    rw [reads.keys] at inside
    obtain ⟨entry, _, same⟩ := List.mem_map.mp inside
    rw [← same, Option.isSome_some]
  · rw [reads.keys, ← Function.comp_def, ← List.map_map]
    exact reads.distinct.map fun _ _ same => Option.some.inj same

theorem Denotes.sound {node part : Node} {value : Value} (denotes : node.Denotes value)
    (has : node.HasPart part) : part.Sound := by
  induction node generalizing value with
  | scalar tag style text line =>
      cases has
      cases denotes with
      | scalar found => exact Option.isSome_of_mem found
  | sequence tag items line ih =>
      cases denotes with
      | sequence denote =>
          cases has with
          | self => trivial
          | item member inside =>
              obtain ⟨itemValue, itemDenotes⟩ := exists_denoted denote _ member
              exact ih _ member itemDenotes inside
  | mapping tag pairs line ih =>
      cases denotes with
      | mapping keys values lines distinct =>
          cases has with
          | self => exact Reads.sound ⟨keys, values, lines, distinct⟩ tag line
          | value member inside =>
              obtain ⟨inner, innerDenotes⟩ :=
                exists_denoted values _ (List.mem_map_of_mem member)
              exact (ih _ member).2 innerDenotes inside
  | enclosing name order line serial => cases denotes
  | reference name target line serial ih =>
      cases denotes with
      | reference denotes =>
          cases has with
          | self => trivial
          | reference inside => exact ih denotes inside

theorem not_sound_of_repeated {done rest : List (Node × Node)} {key value : Node}
    {entries : List (Entry Value)} {first : Entry Value} (reads : Reads done entries)
    (known : first ∈ entries) (same : key.keyText? = some first.key) (tag : Option Text)
    (line : Nat) : ¬(Node.mapping tag (done ++ (key, value) :: rest) line).Sound := by
  rintro ⟨_, distinct⟩
  have earlier : key.keyText? ∈ done.map fun pair => pair.1.keyText? := by
    rw [reads.keys, same]
    exact List.mem_map_of_mem known
  rw [List.map_append, List.nodup_append] at distinct
  exact distinct.2.2 _ earlier _ (by simp) rfl

theorem PairFails.exists_unsound {done rest : List (Node × Node)} {key value : Node}
    {entries : List (Entry Value)} {error : DecodeError} (reads : Reads done entries)
    (fails : PairFails entries key value error)
    (inner : ∀ error, value.Fails error → ∃ part, value.HasPart part ∧ ¬part.Sound)
    (tag : Option Text) (line : Nat) :
    ∃ part, (Node.mapping tag (done ++ (key, value) :: rest) line).HasPart part ∧
      ¬part.Sound := by
  have member : (key, value) ∈ done ++ (key, value) :: rest := by simp
  cases fails with
  | key unnamed =>
      refine ⟨_, .self, ?_⟩
      rintro ⟨named, _⟩
      have present := named _ member
      rw [unnamed] at present
      contradiction
  | repeated known same => exact ⟨_, .self, not_sound_of_repeated reads known same tag line⟩
  | value _ _ fails =>
      obtain ⟨part, inside, unsound⟩ := inner _ fails
      exact ⟨part, .value member inside, unsound⟩

theorem Fails.exists_unsound {node : Node} {error : DecodeError} (fails : node.Fails error) :
    ∃ part, node.HasPart part ∧ ¬part.Sound := by
  induction node generalizing error with
  | scalar tag style text line =>
      cases fails with
      | scalar missing =>
          refine ⟨_, .self, ?_⟩
          simp [Sound, missing]
  | sequence tag items line ih =>
      cases fails with
      | sequence _ fails =>
          obtain ⟨part, inside, unsound⟩ := ih _ (by simp) fails
          exact ⟨part, .item (by simp) inside, unsound⟩
  | mapping tag pairs line ih =>
      cases fails with
      | mapping reads fails =>
          apply fails.exists_unsound reads
          intro error fails
          exact (ih (_, _) (List.mem_append_right _ List.mem_cons_self)).2 fails
  | enclosing name order line serial => exact ⟨_, .self, id⟩
  | reference name target line serial ih =>
      cases fails with
      | reference fails =>
          obtain ⟨part, inside, unsound⟩ := ih fails
          exact ⟨part, .reference inside, unsound⟩

theorem fills_addPairs_empty (pairs : List (Node × Node)) : Fills pairs (addPairs {} pairs) :=
  fills_addPairs reads_nil fun pair _ => explains_toValue pair.2

section Filled

variable {pairs : List (Node × Node)} {outcome : Record × Option DecodeError}

theorem Fills.succeeds_iff (filled : Fills pairs outcome) (tag : Option Text) (line : Nat) :
    outcome.2 = none ↔ ∀ part, (Node.mapping tag pairs line).HasPart part → part.Sound := by
  cases filled with
  | complete reads =>
      have denotes : (Node.mapping tag pairs line).Denotes _ :=
        .mapping reads.keys reads.values reads.lines reads.distinct
      simp only [true_iff]
      intro part has
      exact denotes.sound has
  | stopped reads fails =>
      obtain ⟨part, has, unsound⟩ :=
        fails.exists_unsound reads (fun _ fails => fails.exists_unsound) tag line
      simp only [reduceCtorEq, false_iff]
      intro sound
      exact unsound (sound part has)

theorem Fills.nodup_keys (filled : Fills pairs outcome) : outcome.1.keys.Nodup := by
  cases filled with
  | complete reads => exact reads.distinct
  | stopped reads _ => exact reads.distinct

theorem Reads.length_eq {entries : List (Entry Value)} (reads : Reads pairs entries) :
    pairs.length = entries.length := by
  simpa using congrArg List.length reads.lines

theorem PairFails.eq_of_repeated {entries : List (Entry Value)} {key value : Node}
    {error : DecodeError} (fails : PairFails entries key value error) {first : Entry Value}
    (distinct : (entries.map Entry.key).Nodup) (known : first ∈ entries)
    (same : key.keyText? = some first.key) :
    error = .invalid { cause := .repeatedKey key.line first.line, field := first.key } := by
  cases fails with
  | key unnamed => simp [unnamed] at same
  | @repeated _ _ _ other member named =>
      rw [same, Option.some_inj] at named
      rw [List.inj_on_of_nodup_map distinct known member named]
  | value named fresh _ =>
      rw [same, Option.some_inj] at named
      exact absurd (List.mem_map_of_mem known) (named ▸ fresh)

theorem Fills.repeated {done rest : List (Node × Node)} {key value : Node}
    (filled : Fills (done ++ (key, value) :: rest) outcome)
    (reads : Reads done outcome.1.entries) {first : Entry Value}
    (known : first ∈ outcome.1.entries) (same : key.keyText? = some first.key) :
    outcome.2 =
      some (.invalid { cause := .repeatedKey key.line first.line, field := first.key }) := by
  -- as many pairs were read as stand in front of the repetition, so it is there that filling ends
  generalize split : done ++ (key, value) :: rest = pairs at filled
  cases filled with
  | complete all =>
      have lengths := all.length_eq.trans reads.length_eq.symm
      rw [← split] at lengths
      simp at lengths
  | stopped before fails =>
      have lengths := reads.length_eq.trans before.length_eq.symm
      obtain ⟨_, tail⟩ := List.append_inj split lengths
      cases tail
      exact congrArg some (fails.eq_of_repeated reads.distinct known same)

end Filled

/-- All that holds of a record filled from the pairs of a mapping, and of the error it ends with. -/
structure FillsExactly (tag : Option Text) (pairs : List (Node × Node)) (line : Nat)
    (outcome : Record × Option DecodeError) : Prop where
  succeeds_iff :
    outcome.2 = none ↔ ∀ part, (Node.mapping tag pairs line).HasPart part → part.Sound
  fills : Fills pairs outcome
  repeated : ∀ done key value rest first, pairs = done ++ (key, value) :: rest →
    Reads done outcome.1.entries → first ∈ outcome.1.entries → key.keyText? = some first.key →
    ∃ error, outcome.2 = some (.invalid error) ∧ error.kind = .invalidRecord ∧
      error.field = first.key ∧ error.cause = .repeatedKey key.line first.line
  found : ∀ entry ∈ outcome.1.entries,
    outcome.1.get? entry.key = some entry.value ∧ outcome.1.lineOf entry.key = entry.line

theorem fillsExactly_addPairs (tag : Option Text) (pairs : List (Node × Node)) (line : Nat) :
    FillsExactly tag pairs line (addPairs {} pairs) := by
  have filled := fills_addPairs_empty pairs
  constructor
  · exact filled.succeeds_iff tag line
  · exact filled
  · rintro done key value rest first rfl reads known same
    exact ⟨_, filled.repeated reads known same, rfl, rfl, rfl⟩
  · intro entry member
    have present := OrderedMap.find?_of_mem filled.nodup_keys member
    constructor
    · rw [OrderedMap.get?, present, Option.map_some]
    · rw [OrderedMap.lineOf, present, Option.map_some, Option.getD_some]

end Yaml.Node

namespace Record

open Yaml (Node Tree)

/--
A mapping, also as the only content of a document, fills a record exactly, whatever was in it;
anything else leaves the record as it was.
-/
theorem fillFromTree_exact (record : Record) (tree : Tree) :
    ((∀ tag pairs line, tree.root? ≠ some (.mapping tag pairs line)) ∧
      ∃ error, record.fillFromTree tree = (record, some error) ∧
        error.kind? = some .invalidRecord) ∨
    ∃ tag pairs line, tree.root? = some (.mapping tag pairs line) ∧
      (∀ other : Record, other.fillFromTree tree = record.fillFromTree tree) ∧
      Node.FillsExactly tag pairs line (record.fillFromTree tree) := by
  simp only [fillFromTree]
  cases inside : tree.root? with
  | none => exact Or.inl ⟨by simp, _, rfl, rfl⟩
  | some root =>
      cases root with
      | mapping tag pairs line =>
          right
          refine ⟨tag, pairs, line, rfl, ?_, ?_⟩
          · exact fun other => rfl
          · exact Node.fillsExactly_addPairs tag pairs line
      | _ => exact Or.inl ⟨by simp, _, rfl, rfl⟩

end Record

end EntitySchema
