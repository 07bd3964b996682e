import EntitySchema.Proofs.Json.Nodes
import EntitySchema.Proofs.Json.Number
import EntitySchema.Proofs.Yaml.Exactness

/-!
JSON files as records. A JSON text that holds objects is decoded to one record for each of them,
as far as YAML knows the signs that it is written with.
-/

namespace EntitySchema

open Yaml

namespace Json

inductive HasPart : Json → Json → Prop
  | self {value : Json} : HasPart value value
  | item {items : List Json} {item part : Json} : item ∈ items → HasPart item part →
      HasPart (.array items) part
  | member {members : List (Text × Json)} {member : Text × Json} {part : Json} :
      member ∈ members → HasPart member.2 part → HasPart (.object members) part

def HasDistinctKeys (value : Json) : Prop :=
  ∀ members, value.HasPart (.object members) → (members.map Prod.fst).Nodup

def HasReadableNumbers (value : Json) : Prop :=
  ∀ text, value.HasPart (.number text) → IsNumber text ∧ Binary.readDouble? text ≠ none

/-- A value of a record says what a JSON value says: its keys in their order, and its numbers. -/
inductive Agrees : Json → Value → Prop
  | null : Agrees .null .null
  | boolean (value : Bool) : Agrees (.boolean value) (.boolean value)
  | number {text : Text} {value : Value} : NumberAgrees text value → Agrees (.number text) value
  | string (text : Text) : Agrees (.string text) (.string text)
  | array {items : List Json} {values : List Value} : List.Forall₂ Agrees items values →
      Agrees (.array items) (.list values)
  | object {members : List (Text × Json)} {entries : List (Entry Value)} :
      members.map Prod.fst = entries.map Entry.key →
      List.Forall₂ Agrees (members.map Prod.snd) (entries.map Entry.value) →
      Agrees (.object members) (.record ⟨entries⟩)

/-- The objects of a file: the whole of it, or the items of a list. -/
inductive HoldsObjects : Json → List Json → Prop
  | single (members : List (Text × Json)) : HoldsObjects (.object members) [.object members]
  | list {items : List Json} : (∀ item ∈ items, ∃ members, item = .object members) →
      HoldsObjects (.array items) items

mutual

theorem Written.hasReadableNumbers : (written : Written) → written.FitsYaml →
    written.value.HasReadableNumbers
  | .null, _ => by rintro text ⟨⟩
  | .boolean _, _ => by rintro text ⟨⟩
  | .number _ isNumber, fits => by
    rintro text ⟨⟩
    exact ⟨isNumber, fits⟩
  | .string _, _ => by rintro text ⟨⟩
  | .emptyArray _, _ => by
    rintro text (_ | ⟨member, _⟩)
    simp at member
  | .array items, fits => by
    rintro text (_ | ⟨member, part⟩)
    exact items.hasReadableNumbers fits _ member text part
  | .emptyObject _, _ => by
    rintro text (_ | _ | ⟨member, _⟩)
    simp at member
  | .object members, fits => by
    rintro text (_ | _ | ⟨member, part⟩)
    exact members.hasReadableNumbers fits _ member text part

theorem Items.hasReadableNumbers : (items : Items) → items.FitsYaml →
    ∀ value ∈ items.values, value.HasReadableNumbers
  | .last _ item _, fits => by
    simpa [Items.values] using item.hasReadableNumbers fits
  | .cons _ item _ others, fits => by
    rw [Items.values, List.forall_mem_cons]
    exact ⟨item.hasReadableNumbers fits.1, others.hasReadableNumbers fits.2⟩

theorem Members.hasReadableNumbers : (members : Members) → members.FitsYaml →
    ∀ member ∈ members.pairs, member.2.HasReadableNumbers
  | .last _ _ _ _ value _, fits => by
    simpa [Members.pairs] using value.hasReadableNumbers fits.2.2
  | .cons _ _ _ _ value _ others, fits => by
    rw [Members.pairs, List.forall_mem_cons]
    exact ⟨value.hasReadableNumbers fits.2.2.1, others.hasReadableNumbers fits.2.2.2⟩

end

theorem IsKey.keyText? {name : Text} {node : Node} (isKey : IsKey name node) :
    node.keyText? = some name := by
  obtain ⟨line, rfl⟩ := isKey
  rfl

theorem keyTexts {names : List Text} {nodes : List Node} (keys : List.Forall₂ IsKey names nodes) :
    nodes.map Node.keyText? = names.map some := by
  induction keys with
  | nil => rfl
  | cons first _ ih => rw [List.map_cons, List.map_cons, first.keyText?, ih]

theorem keyTexts_of_pairs {names : List Text} {pairs : List (Node × Node)}
    (keys : List.Forall₂ IsKey names (pairs.map Prod.fst)) :
    pairs.map (fun pair => pair.1.keyText?) = names.map some := by
  rw [← keyTexts keys, List.map_map]
  rfl

theorem exists_shown {items : List Json} {nodes : List Node}
    (shows : List.Forall₂ Shows items nodes) :
    ∀ node ∈ nodes, ∃ item ∈ items, Shows item node := by
  induction shows with
  | nil => simp
  | cons first _ ih =>
      refine List.forall_mem_cons.mpr ⟨⟨_, List.mem_cons_self, first⟩, fun node member => ?_⟩
      obtain ⟨item, inside, shown⟩ := ih node member
      exact ⟨item, List.mem_cons_of_mem _ inside, shown⟩

theorem Shows.sound {value : Json} {node part : Node} (shows : Shows value node)
    (distinct : value.HasDistinctKeys) (has : node.HasPart part) : part.Sound := by
  induction node generalizing value with
  | scalar tag style text line =>
      cases has
      cases shows <;> simp [Node.Sound, scalarValue?]
  | sequence tag nodes line ih =>
      cases shows with
      | array line shows =>
          cases has with
          | self => trivial
          | item member inside =>
              obtain ⟨item, isItem, shown⟩ := exists_shown shows _ member
              exact ih _ member shown (fun members part => distinct members (.item isItem part))
                inside
  | mapping tag pairs line ih =>
      cases shows with
      | object line keys shows =>
          rename_i members
          -- all keys are scalars, and they are the names of the object, which has none twice
          have texts := keyTexts_of_pairs keys
          cases has with
          | self =>
              constructor
              · intro pair member
                have inside : pair.1.keyText? ∈ pairs.map fun pair => pair.1.keyText? :=
                  List.mem_map_of_mem member
                rw [texts] at inside
                obtain ⟨name, _, same⟩ := List.mem_map.mp inside
                rw [← same, Option.isSome_some]
              · rw [texts]
                exact (distinct members .self).map fun _ _ same => Option.some.inj same
          | value member inside =>
              obtain ⟨value, isValue, shown⟩ :=
                exists_shown shows _ (List.mem_map_of_mem member)
              obtain ⟨entry, isMember, rfl⟩ := List.mem_map.mp isValue
              exact (ih _ member).2 shown
                (fun members part => distinct members (.member isMember part)) inside
  | reference => cases shows
  | enclosing => cases shows

theorem forall₂_agrees {items : List Json} {nodes : List Node} {values : List Value}
    (shows : List.Forall₂ Shows items nodes) (denote : List.Forall₂ Node.Denotes nodes values)
    (agree : ∀ item ∈ items, ∀ node ∈ nodes, ∀ value, Shows item node → node.Denotes value →
      Agrees item value) : List.Forall₂ Agrees items values := by
  induction shows generalizing values with
  | nil =>
      cases denote
      exact .nil
  | cons first _ ih =>
      cases denote with
      | cons denotes denote =>
          refine .cons (agree _ List.mem_cons_self _ List.mem_cons_self _ first denotes)
            (ih denote fun item isItem node isNode => ?_)
          exact agree item (List.mem_cons_of_mem _ isItem) node (List.mem_cons_of_mem _ isNode)

theorem Shows.agrees {json : Json} {node : Node} {value : Value} (shows : Shows json node)
    (numbers : json.HasReadableNumbers) (denotes : node.Denotes value) : Agrees json value := by
  induction node generalizing json value with
  | scalar tag style text line =>
      cases denotes with
      | scalar found =>
          cases shows with
          | null =>
              obtain rfl := Option.some.inj found
              exact .null
          | boolean value =>
              obtain rfl := Option.some.inj found
              cases value <;> exact .boolean _
          | number =>
              obtain rfl := Option.some.inj found
              obtain ⟨isNumber, readable⟩ := numbers text .self
              exact .number (plainMeaning_number isNumber readable)
          | string =>
              obtain rfl := Option.some.inj found
              exact .string text
  | sequence tag nodes line ih =>
      cases shows with
      | array line shows =>
          cases denotes with
          | sequence denote =>
              refine .array (forall₂_agrees shows denote ?_)
              intro item isItem node isNode value shown denotes
              exact ih node isNode shown (fun text part => numbers text (.item isItem part))
                denotes
  | mapping tag pairs line ih =>
      cases shows with
      | object line keys shows =>
          cases denotes with
          | mapping names denote lines distinct =>
              rename_i members entries
              have same : (members.map Prod.fst).map some = (entries.map Entry.key).map some := by
                rw [← keyTexts_of_pairs keys, names, List.map_map]
                rfl
              have texts : members.map Prod.fst = entries.map Entry.key :=
                List.map_injective_iff.mpr (Option.some_injective _) same
              refine .object texts (forall₂_agrees shows denote ?_)
              intro item isItem node isNode value shown denotes
              obtain ⟨member, isMember, rfl⟩ := List.mem_map.mp isItem
              obtain ⟨pair, isPair, rfl⟩ := List.mem_map.mp isNode
              exact (ih pair isPair).2 shown
                (fun text part => numbers text (.member isMember part)) denotes
  | reference => cases shows
  | enclosing => cases shows

theorem Shows.toValue {json : Json} {node : Node} (shows : Shows json node)
    (distinct : json.HasDistinctKeys) (numbers : json.HasReadableNumbers) :
    ∃ value, node.toValue = .ok value ∧ Agrees json value := by
  have explained := node.explains_toValue
  cases read : node.toValue with
  | ok value =>
      rw [read] at explained
      exact ⟨value, rfl, shows.agrees numbers explained⟩
  | error error =>
      rw [read] at explained
      -- an error is about a part that cannot be decoded, and there is none
      obtain ⟨part, inside, unsound⟩ := Node.Fails.exists_unsound explained
      exact absurd (shows.sound distinct inside) unsound

theorem Shows.ofNode {members : List (Text × Json)} {node : Node}
    (shows : Shows (.object members) node) (distinct : (Json.object members).HasDistinctKeys)
    (numbers : (Json.object members).HasReadableNumbers) :
    ∃ record, Record.ofNode node = .ok record ∧ Agrees (.object members) (.record record) := by
  obtain ⟨value, read, agrees⟩ := shows.toValue distinct numbers
  cases shows with
  | object line keys shows =>
      rename_i pairs
      rw [Node.toValue] at read
      rw [Record.ofNode, Record.fill]
      cases filled : Node.addPairs {} pairs with
      | mk record error =>
          rw [filled] at read
          cases error with
          | none =>
              obtain rfl := Except.ok.inj read
              exact ⟨record, rfl, agrees⟩
          | some error => contradiction

def RecordAgrees (object : Json) (record : Record) : Prop := Agrees object (.record record)

theorem ofNodes_of_shows {items : List Json} {nodes : List Node}
    (shows : List.Forall₂ Shows items nodes)
    (objects : ∀ item ∈ items, ∃ members, item = .object members)
    (distinct : ∀ item ∈ items, item.HasDistinctKeys)
    (numbers : ∀ item ∈ items, item.HasReadableNumbers) :
    ∃ records, Record.ofNodes nodes = .ok records ∧ List.Forall₂ RecordAgrees items records := by
  induction shows with
  | nil => exact ⟨[], rfl, .nil⟩
  | cons first _ ih =>
      rw [List.forall_mem_cons] at objects distinct numbers
      obtain ⟨members, rfl⟩ := objects.1
      obtain ⟨record, read, agrees⟩ := first.ofNode distinct.1 numbers.1
      obtain ⟨records, readOthers, others⟩ := ih objects.2 distinct.2 numbers.2
      refine ⟨record :: records, ?_, .cons agrees others⟩
      rw [Record.ofNodes, read]
      dsimp only
      rw [readOthers]

theorem Shows.ofDocument {value : Json} {root : Node} {objects : List Json}
    (shows : Shows value root) (holds : HoldsObjects value objects)
    (distinct : value.HasDistinctKeys) (numbers : value.HasReadableNumbers) :
    ∃ records, Record.ofDocument root = .ok records ∧
      List.Forall₂ RecordAgrees objects records := by
  cases holds with
  | single members =>
      obtain ⟨record, read, agrees⟩ := shows.ofNode distinct numbers
      cases shows with
      | object line keys shows =>
          refine ⟨[record], ?_, .cons agrees .nil⟩
          rw [Record.ofDocument, read]
  | list objects =>
      cases shows with
      | array line shows =>
          exact ofNodes_of_shows shows objects
            (fun item isItem members part => distinct members (.item isItem part))
            (fun item isItem text part => numbers text (.item isItem part))

theorem HoldsObjects.isCollection {document : Document} {objects : List Json}
    (holds : HoldsObjects document.value objects) : document.root.IsCollection := by
  unfold Document.value at holds
  cases written : document.root with
  | null | boolean | number | string =>
      rw [written] at holds
      cases holds
  | _ => trivial

/--
A text is JSON only if it is a written document. If its signs fit, and it holds objects without
repeated keys, it is decoded to one record for each object, which says what the object says.
-/
theorem decode_json {chars : List Char} {value : Json}
    (read : Json.read? (Text.ofChars chars) = some value) :
    (∃ document : Document, document.chars = chars ∧ document.value = value) ∧
      ∀ document : Document, document.chars = chars → document.value = value →
        document.FitsYaml → value.HasDistinctKeys → ∀ objects, HoldsObjects value objects →
        ∃ records, Record.decode .json (Text.ofChars chars) = .ok records ∧
          List.Forall₂ RecordAgrees objects records := by
  obtain ⟨shallow, written⟩ := exists_document read
  refine ⟨written, ?_⟩
  rintro document rfl rfl fits distinct objects holds
  obtain ⟨root, documents, shows⟩ := exists_documents fits holds.isCollection shallow
  obtain ⟨records, decoded, agree⟩ := shows.ofDocument holds distinct
    (document.root.hasReadableNumbers fits.root)
  refine ⟨records, ?_, agree⟩
  rw [Record.decode, documents]
  simp [Record.ofDocuments, decoded]

theorem hasDistinctKeys_object {members : List (Text × Json)}
    (distinct : (members.map Prod.fst).Nodup)
    (inside : ∀ member ∈ members, member.2.HasDistinctKeys) :
    (Json.object members).HasDistinctKeys := by
  rintro others (_ | _ | ⟨isMember, part⟩)
  · exact distinct
  · exact inside _ isMember others part

theorem hasDistinctKeys_array {items : List Json} (inside : ∀ item ∈ items, item.HasDistinctKeys) :
    (Json.array items).HasDistinctKeys := by
  rintro others (_ | ⟨isItem, part⟩)
  exact inside _ isItem others part

theorem decode_json_list :
    Json.read? (utf8 "[\x7b\"a\": 1\x7d ]") =
        some (.array [.object [(utf8 "a", .number (utf8 "1"))]]) ∧
      ∃ records, Record.decode .json (utf8 "[\x7b\"a\": 1\x7d ]") = .ok records ∧
        List.Forall₂ RecordAgrees [.object [(utf8 "a", .number (utf8 "1"))]] records := by
  have isNumber : IsNumber (utf8 "1") :=
    @IsNumber.parts [] (utf8 "1") [] [] (by simp)
      (.digits ⟨by decide, forall_mem_of_all (by decide)⟩ (by decide)) .none .none
  let document : Document :=
    { before := []
      root := .array (.last [] (.object (.last [] [.raw 'a' ⟨by decide, by decide, by decide⟩] []
        [.space] (.number (utf8 "1") isNumber) [])) [.space])
      behind := [] }
  have read : Json.read? (Text.ofChars document.chars) =
      some (.array [.object [(utf8 "a", .number (utf8 "1"))]]) := by rfl
  have fits : document.FitsYaml := by
    refine ⟨⟨by simp [Sign.FitsYaml]; decide, ⟨by simp, by decide⟩, ?_⟩, trivial, trivial⟩
    exact fun (none : Binary.readDouble? (utf8 "1") = none) =>
      absurd none (by decide +kernel)
  have distinct : (Json.array [.object [(utf8 "a", .number (utf8 "1"))]]).HasDistinctKeys := by
    refine hasDistinctKeys_array ?_
    simp only [List.forall_mem_singleton]
    refine hasDistinctKeys_object (by simp) ?_
    simp only [List.forall_mem_singleton]
    rintro members ⟨⟩
  exact ⟨read, (decode_json read).2 document rfl rfl fits distinct _
    (.list (by simp))⟩

/-- The slash has an escape in JSON and none in YAML, so a text may be refused for it. -/
theorem decode_json_slash :
    Json.read? (utf8 "\x7b\"a\":\"\\/\"\x7d") =
        some (.object [(utf8 "a", .string (utf8 "/"))]) ∧
      HoldsObjects (.object [(utf8 "a", .string (utf8 "/"))])
        [.object [(utf8 "a", .string (utf8 "/"))]] ∧
      (Json.object [(utf8 "a", .string (utf8 "/"))]).HasDistinctKeys ∧
      Record.decode .json (utf8 "\x7b\"a\":\"\\/\"\x7d") = .error .unreadable := by
  refine ⟨by rfl, .single _, hasDistinctKeys_object (by simp) ?_, by rfl⟩
  simp only [List.forall_mem_singleton]
  rintro members ⟨⟩

end Json

end EntitySchema
