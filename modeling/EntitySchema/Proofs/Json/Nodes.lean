import EntitySchema.Proofs.Json.Stream
import EntitySchema.Yaml.Decode

/-!
The tree of a JSON document. Its tokens are read into flow collections and scalars that show the
value, and nothing is left of them but the end of the stream.
-/

namespace EntitySchema

open Yaml

namespace Json

def IsKey (name : Text) (node : Node) : Prop := ∃ line, node = .scalar none .doubleQuoted name line

/-- The nodes that a value is read into, wherever they stand. -/
inductive Shows : Json → Node → Prop
  | null (line : Nat) : Shows .null (.scalar none .plain (utf8 "null") line)
  | boolean (value : Bool) (line : Nat) :
      Shows (.boolean value) (.scalar none .plain (ofBool value) line)
  | number (text : Text) (line : Nat) : Shows (.number text) (.scalar none .plain text line)
  | string (text : Text) (line : Nat) : Shows (.string text) (.scalar none .doubleQuoted text line)
  | array {items : List Json} {nodes : List Node} (line : Nat) :
      List.Forall₂ Shows items nodes → Shows (.array items) (.sequence none nodes line)
  | object {members : List (Text × Json)} {pairs : List (Node × Node)} (line : Nat) :
      List.Forall₂ IsKey (members.map Prod.fst) (pairs.map Prod.fst) →
      List.Forall₂ Shows (members.map Prod.snd) (pairs.map Prod.snd) →
      Shows (.object members) (.mapping none pairs line)

end Json

namespace Yaml

open Json

def Stream.contents (stream : Stream) : List TokenContent := stream.tokens.map Token.content

def startsValue : TokenContent → Bool
  | .scalar .. => true
  | .flowSequenceStart => true
  | .flowMappingStart => true
  | _ => false

variable {stream : Stream} {content : TokenContent} {others : List TokenContent}

theorem Stream.exists_line (contents : stream.contents = content :: others) :
    ∃ line, stream.peek? = some ⟨content, line⟩ ∧ stream.next.contents = others := by
  obtain ⟨token, tail, tokens, rfl, rfl⟩ := List.map_eq_cons_iff.mp contents
  exact ⟨token.line, by rw [peek?, tokens]; rfl, by rw [Stream.contents, next, tokens]; rfl⟩

namespace Node

theorem read?_value {line : Nat} (peeked : stream.peek? = some ⟨content, line⟩)
    (starts : startsValue content = true) (fuel : Nat) (block indentless : Bool) :
    read? (fuel + 1) block indentless stream =
      readContent? fuel block indentless {} line stream := by
  rw [read?, peeked]
  cases content with
  | scalar | flowSequenceStart | flowMappingStart =>
      simp [Properties.read?, Properties.readAnchor, Properties.readTag?, peeked]
  | _ => simp [startsValue] at starts

theorem read?_scalar {text : Text} {style : ScalarStyle}
    (contents : stream.contents = .scalar text style :: others) {fuel : Nat} (enough : 2 ≤ fuel)
    (block indentless : Bool) :
    ∃ line, read? fuel block indentless stream =
      some (.scalar none style text line, stream.next) ∧ stream.next.contents = others := by
  obtain ⟨fuel, rfl⟩ := Nat.exists_eq_add_of_le' enough
  obtain ⟨line, peeked, behind⟩ := Stream.exists_line contents
  refine ⟨line, ?_, behind⟩
  rw [read?_value peeked rfl, readContent?, peeked]
  rfl

theorem read?_sequence (contents : stream.contents = .flowSequenceStart :: others) {fuel : Nat}
    (block indentless : Bool) {items : List Node} {rest : Stream}
    (read : readFlowItems? fuel true [] stream.next = some (items, rest)) :
    ∃ line, read? (fuel + 2) block indentless stream = some (.sequence none items line, rest) := by
  obtain ⟨line, peeked, behind⟩ := Stream.exists_line contents
  refine ⟨line, ?_⟩
  rw [read?_value peeked rfl, readContent?, peeked]
  simp only [Option.bind_eq_bind, Option.bind_some, read]
  rfl

theorem read?_mapping (contents : stream.contents = .flowMappingStart :: others) {fuel : Nat}
    (block indentless : Bool) {pairs : List (Node × Node)} {rest : Stream}
    (read : readFlowPairs? fuel true [] stream.next = some (pairs, rest)) :
    ∃ line, read? (fuel + 2) block indentless stream = some (.mapping none pairs line, rest) := by
  obtain ⟨line, peeked, behind⟩ := Stream.exists_line contents
  refine ⟨line, ?_⟩
  rw [read?_value peeked rfl, readContent?, peeked]
  simp only [Option.bind_eq_bind, Option.bind_some, read]
  rfl

def atPart (isFirst : Bool) (stream : Stream) : Stream := if isFirst then stream else stream.next

theorem readFlowItems?_end (contents : stream.contents = .flowSequenceEnd :: others)
    {fuel : Nat} (enough : 0 < fuel) (isFirst : Bool) (done : List Node) :
    readFlowItems? fuel isFirst done stream = some (done.reverse, stream.next) ∧
      stream.next.contents = others := by
  obtain ⟨fuel, rfl⟩ := Nat.exists_eq_add_of_le' enough
  obtain ⟨line, peeked, behind⟩ := Stream.exists_line contents
  refine ⟨?_, behind⟩
  rw [readFlowItems?, peeked]
  rfl

def separator (isFirst : Bool) : List TokenContent := if isFirst then [] else [.flowEntry]

theorem ne_of_startsValue (starts : startsValue content = true) :
    content ≠ .flowSequenceEnd ∧ content ≠ .flowMappingEnd ∧ content ≠ .flowEntry ∧
      content ≠ .key := by
  refine ⟨?_, ?_, ?_, ?_⟩ <;> rintro rfl <;> simp [startsValue] at starts

theorem contents_atPart {isFirst : Bool}
    (contents : stream.contents = separator isFirst ++ others) :
    (atPart isFirst stream).contents = others := by
  cases isFirst with
  | true => exact contents
  | false => exact (Stream.exists_line contents).choose_spec.2

theorem readFlowItems?_item {isFirst : Bool} {done : List Node} {fuel : Nat} {node : Node}
    {rest : Stream} (contents : stream.contents = separator isFirst ++ content :: others)
    (starts : startsValue content = true)
    (read : read? fuel false false (atPart isFirst stream) = some (node, rest)) :
    readFlowItems? (fuel + 1) isFirst done stream =
      readFlowItems? fuel false (node :: done) rest := by
  obtain ⟨line, peeked, _⟩ := Stream.exists_line (contents_atPart contents)
  obtain ⟨noEnd, _, _, noKey⟩ := ne_of_startsValue starts
  cases isFirst with
  | true =>
      have peeked : stream.peek? = some ⟨content, line⟩ := peeked
      have read : read? fuel false false stream = some (node, rest) := read
      simp [readFlowItems?, peeked, noEnd, noKey, read]
  | false =>
      have peeked : stream.next.peek? = some ⟨content, line⟩ := peeked
      have read : read? fuel false false stream.next = some (node, rest) := read
      obtain ⟨comma, first, _⟩ := Stream.exists_line contents
      simp [readFlowItems?, first, peeked, noEnd, noKey, read]

theorem readFlowPairs?_end (contents : stream.contents = .flowMappingEnd :: others)
    {fuel : Nat} (enough : 0 < fuel) (isFirst : Bool) (done : List (Node × Node)) :
    readFlowPairs? fuel isFirst done stream = some (done.reverse, stream.next) ∧
      stream.next.contents = others := by
  obtain ⟨fuel, rfl⟩ := Nat.exists_eq_add_of_le' enough
  obtain ⟨line, peeked, behind⟩ := Stream.exists_line contents
  refine ⟨?_, behind⟩
  rw [readFlowPairs?, peeked]
  rfl

theorem readFlowValue?_value {fuel : Nat} {closing : TokenContent} {node : Node} {rest : Stream}
    (contents : stream.contents = .value :: content :: others)
    (starts : startsValue content = true) (other : content ≠ closing)
    (read : read? fuel false false stream.next = some (node, rest)) :
    readFlowValue? (fuel + 1) closing stream = some (node, rest) := by
  obtain ⟨mark, first, behind⟩ := Stream.exists_line contents
  obtain ⟨line, peeked, _⟩ := Stream.exists_line behind
  have noEntry := (ne_of_startsValue starts).2.2.1
  simp [readFlowValue?, first, peeked, noEntry, other, read]

theorem readFlowPairs?_pair {isFirst : Bool} (done : List (Node × Node)) {fuel : Nat}
    {name : Text} {value : Node} {rest : Stream}
    (contents : stream.contents = separator isFirst ++
      .key :: .scalar name .doubleQuoted :: .value :: content :: others)
    (starts : startsValue content = true) (enough : 1 ≤ fuel)
    (read : read? fuel false false (atPart isFirst stream).next.next.next = some (value, rest)) :
    ∃ key, IsKey name key ∧ readFlowPairs? (fuel + 2) isFirst done stream =
      readFlowPairs? (fuel + 1) false ((key, value) :: done) rest := by
  obtain ⟨mark, keyed, atKey⟩ := Stream.exists_line (contents_atPart contents)
  obtain ⟨place, peeked, _⟩ := Stream.exists_line atKey
  obtain ⟨line, readKey, atValue⟩ := read?_scalar atKey (show 2 ≤ fuel + 1 by omega) false false
  have readValue := readFlowValue?_value atValue starts (ne_of_startsValue starts).2.1 read
  refine ⟨_, ⟨line, rfl⟩, ?_⟩
  cases isFirst with
  | true =>
      simp only [atPart, if_true] at keyed peeked readKey readValue
      simp [readFlowPairs?, keyed, peeked, readKey, readValue]
  | false =>
      obtain ⟨comma, first, _⟩ := Stream.exists_line contents
      simp only [atPart, Bool.false_eq_true, if_false] at keyed peeked readKey readValue
      simp [readFlowPairs?, first, keyed, peeked, readKey, readValue]

end Node

end Yaml

namespace Json

open Node

def Written.IsReadAsNode (written : Written) : Prop :=
  ∀ (fuel : Nat) (block indentless : Bool) (stream : Stream) (others : List TokenContent),
    stream.contents = written.contents ++ others → 2 * written.contents.length ≤ fuel →
    ∃ node rest, Node.read? fuel block indentless stream = some (node, rest) ∧
      rest.contents = others ∧ Shows written.value node

def Items.IsReadAsNodes (items : Items) : Prop :=
  ∀ (fuel : Nat) (isFirst : Bool) (done : List Node) (stream : Stream)
    (others : List TokenContent),
    stream.contents = separator isFirst ++ (items.contents ++ .flowSequenceEnd :: others) →
    2 * items.contents.length + 2 ≤ fuel →
    ∃ nodes rest, readFlowItems? fuel isFirst done stream = some (done.reverse ++ nodes, rest) ∧
      rest.contents = others ∧ List.Forall₂ Shows items.values nodes

def Members.IsReadAsPairs (members : Members) : Prop :=
  ∀ (fuel : Nat) (isFirst : Bool) (done : List (Node × Node)) (stream : Stream)
    (others : List TokenContent),
    stream.contents = separator isFirst ++ (members.contents ++ .flowMappingEnd :: others) →
    2 * members.contents.length + 2 ≤ fuel →
    ∃ pairs rest, readFlowPairs? fuel isFirst done stream = some (done.reverse ++ pairs, rest) ∧
      rest.contents = others ∧
      List.Forall₂ IsKey (members.pairs.map Prod.fst) (pairs.map Prod.fst) ∧
      List.Forall₂ Shows (members.pairs.map Prod.snd) (pairs.map Prod.snd)

theorem Written.exists_start (written : Written) :
    ∃ content others, written.contents = content :: others ∧ startsValue content = true := by
  cases written <;> exact ⟨_, _, rfl, rfl⟩

theorem readAsNode_scalar {written : Written} {text : Text} {style : ScalarStyle}
    (contents : written.contents = [.scalar text style])
    (shows : ∀ line, Shows written.value (.scalar none style text line)) :
    written.IsReadAsNode := by
  intro fuel block indentless stream others ahead enough
  rw [contents] at ahead enough
  obtain ⟨line, read, behind⟩ := read?_scalar ahead enough block indentless
  exact ⟨_, _, read, behind, shows line⟩

theorem readAsNode_array {items : Items} (reads : items.IsReadAsNodes) :
    (Written.array items).IsReadAsNode := by
  intro fuel block indentless stream others ahead enough
  simp only [Written.contents, List.cons_append, List.append_assoc, List.length_cons,
    List.length_append, List.nil_append] at ahead enough
  obtain ⟨fuel, rfl⟩ := Nat.exists_eq_add_of_le' (show 2 ≤ fuel by omega)
  obtain ⟨_, _, behind⟩ := Stream.exists_line ahead
  obtain ⟨nodes, rest, read, atOthers, shows⟩ :=
    reads fuel true [] stream.next others behind (by omega)
  obtain ⟨line, read⟩ := read?_sequence ahead block indentless read
  exact ⟨_, rest, read, atOthers, .array line shows⟩

theorem readAsNode_emptyArray (inside : List Blank) : (Written.emptyArray inside).IsReadAsNode := by
  intro fuel block indentless stream others ahead enough
  simp only [Written.contents, List.cons_append, List.length_cons, List.length_nil,
    List.nil_append] at ahead enough
  obtain ⟨fuel, rfl⟩ := Nat.exists_eq_add_of_le' (show 2 ≤ fuel by omega)
  obtain ⟨_, _, behind⟩ := Stream.exists_line ahead
  obtain ⟨read, atOthers⟩ := readFlowItems?_end behind (by omega : 0 < fuel) true []
  obtain ⟨line, read⟩ := read?_sequence ahead block indentless read
  exact ⟨_, _, read, atOthers, .array line .nil⟩

theorem readAsNode_object {members : Members} (reads : members.IsReadAsPairs) :
    (Written.object members).IsReadAsNode := by
  intro fuel block indentless stream others ahead enough
  simp only [Written.contents, List.cons_append, List.append_assoc, List.length_cons,
    List.length_append, List.nil_append] at ahead enough
  obtain ⟨fuel, rfl⟩ := Nat.exists_eq_add_of_le' (show 2 ≤ fuel by omega)
  obtain ⟨_, _, behind⟩ := Stream.exists_line ahead
  obtain ⟨pairs, rest, read, atOthers, keys, shows⟩ :=
    reads fuel true [] stream.next others behind (by omega)
  obtain ⟨line, read⟩ := read?_mapping ahead block indentless read
  exact ⟨_, rest, read, atOthers, .object line keys shows⟩

theorem readAsNode_emptyObject (inside : List Blank) :
    (Written.emptyObject inside).IsReadAsNode := by
  intro fuel block indentless stream others ahead enough
  simp only [Written.contents, List.cons_append, List.length_cons, List.length_nil,
    List.nil_append] at ahead enough
  obtain ⟨fuel, rfl⟩ := Nat.exists_eq_add_of_le' (show 2 ≤ fuel by omega)
  obtain ⟨_, _, behind⟩ := Stream.exists_line ahead
  obtain ⟨read, atOthers⟩ := readFlowPairs?_end behind (by omega : 0 < fuel) true []
  obtain ⟨line, read⟩ := read?_mapping ahead block indentless read
  exact ⟨_, _, read, atOthers, .object line .nil .nil⟩

theorem readFlowItems?_written {item : Written} (reads : item.IsReadAsNode) (fuel : Nat)
    {isFirst : Bool} (done : List Node) {stream : Stream} {others : List TokenContent}
    (ahead : stream.contents = separator isFirst ++ (item.contents ++ others))
    (enough : 2 * item.contents.length ≤ fuel) :
    ∃ node rest, readFlowItems? (fuel + 1) isFirst done stream =
      readFlowItems? fuel false (node :: done) rest ∧ rest.contents = others ∧
      Shows item.value node := by
  obtain ⟨content, tail, contents, starts⟩ := item.exists_start
  obtain ⟨node, rest, read, behind, shows⟩ :=
    reads fuel false false (atPart isFirst stream) others (contents_atPart ahead) enough
  rw [contents, List.cons_append] at ahead
  exact ⟨node, rest, readFlowItems?_item ahead starts read, behind, shows⟩

theorem readAsNodes_last {item : Written} (before behind : List Blank)
    (reads : item.IsReadAsNode) : (Items.last before item behind).IsReadAsNodes := by
  intro fuel isFirst done stream others ahead enough
  simp only [Items.contents] at ahead enough
  obtain ⟨fuel, rfl⟩ := Nat.exists_eq_add_of_le' (show 1 ≤ fuel by omega)
  obtain ⟨node, middle, round, atEnd, shows⟩ :=
    readFlowItems?_written reads fuel done ahead (by omega)
  obtain ⟨last, behind⟩ :=
    readFlowItems?_end atEnd (show 0 < fuel by omega) false (node :: done)
  refine ⟨[node], _, round.trans (last.trans ?_), behind, .cons shows .nil⟩
  rw [List.reverse_cons]

theorem readAsNodes_cons {item : Written} {more : Items} (before behind : List Blank)
    (reads : item.IsReadAsNode) (readsMore : more.IsReadAsNodes) :
    (Items.cons before item behind more).IsReadAsNodes := by
  intro fuel isFirst done stream others ahead enough
  simp only [Items.contents, List.length_append, List.length_cons, List.append_assoc,
    List.cons_append] at ahead enough
  obtain ⟨fuel, rfl⟩ := Nat.exists_eq_add_of_le' (show 1 ≤ fuel by omega)
  obtain ⟨node, middle, round, atMore, shows⟩ :=
    readFlowItems?_written reads fuel done ahead (by omega)
  obtain ⟨nodes, rest, read, behind, showsMore⟩ :=
    readsMore fuel false (node :: done) middle others atMore (by omega)
  refine ⟨node :: nodes, rest, round.trans (read.trans ?_), behind, .cons shows showsMore⟩
  rw [List.reverse_cons, List.append_assoc, List.singleton_append]

theorem readFlowPairs?_written {name : Text} {value : Written} (reads : value.IsReadAsNode)
    (fuel : Nat) {isFirst : Bool} (done : List (Node × Node)) {stream : Stream}
    {others : List TokenContent}
    (ahead : stream.contents = separator isFirst ++
      .key :: .scalar name .doubleQuoted :: .value :: (value.contents ++ others))
    (enough : 2 * value.contents.length ≤ fuel) :
    ∃ key node rest, readFlowPairs? (fuel + 2) isFirst done stream =
      readFlowPairs? (fuel + 1) false ((key, node) :: done) rest ∧ rest.contents = others ∧
      IsKey name key ∧ Shows value.value node := by
  obtain ⟨content, tail, contents, starts⟩ := value.exists_start
  obtain ⟨_, _, atKey⟩ := Stream.exists_line (contents_atPart ahead)
  obtain ⟨_, _, atMark⟩ := Stream.exists_line atKey
  obtain ⟨_, _, atValue⟩ := Stream.exists_line atMark
  obtain ⟨node, rest, read, behind, shows⟩ := reads fuel false false _ others atValue enough
  rw [contents] at ahead enough
  rw [List.length_cons] at enough
  obtain ⟨key, isKey, round⟩ :=
    readFlowPairs?_pair done ahead starts (show 1 ≤ fuel by omega) read
  exact ⟨key, node, rest, round, behind, isKey, shows⟩

theorem readAsPairs_last {key : List Sign} {value : Written}
    (before beforeColon behindColon behind : List Blank) (reads : value.IsReadAsNode) :
    (Members.last before key beforeColon behindColon value behind).IsReadAsPairs := by
  intro fuel isFirst done stream others ahead enough
  simp only [Members.contents, List.length_cons, List.cons_append] at ahead enough
  obtain ⟨fuel, rfl⟩ := Nat.exists_eq_add_of_le' (show 2 ≤ fuel by omega)
  obtain ⟨key, node, middle, round, atEnd, isKey, shows⟩ :=
    readFlowPairs?_written reads fuel done ahead (by omega)
  obtain ⟨last, behind⟩ :=
    readFlowPairs?_end atEnd (show 0 < fuel + 1 by omega) false ((key, node) :: done)
  refine ⟨[(key, node)], _, round.trans (last.trans ?_), behind, .cons isKey .nil,
    .cons shows .nil⟩
  rw [List.reverse_cons]

theorem readAsPairs_cons {key : List Sign} {value : Written} {more : Members}
    (before beforeColon behindColon behind : List Blank) (reads : value.IsReadAsNode)
    (readsMore : more.IsReadAsPairs) :
    (Members.cons before key beforeColon behindColon value behind more).IsReadAsPairs := by
  intro fuel isFirst done stream others ahead enough
  simp only [Members.contents, List.length_cons, List.length_append, List.append_assoc,
    List.cons_append] at ahead enough
  obtain ⟨fuel, rfl⟩ := Nat.exists_eq_add_of_le' (show 2 ≤ fuel by omega)
  obtain ⟨key, node, middle, round, atMore, isKey, shows⟩ :=
    readFlowPairs?_written reads fuel done ahead (by omega)
  obtain ⟨pairs, rest, read, behind, keys, showsMore⟩ :=
    readsMore (fuel + 1) false ((key, node) :: done) middle others atMore (by omega)
  refine ⟨(key, node) :: pairs, rest, round.trans (read.trans ?_), behind, .cons isKey keys,
    .cons shows showsMore⟩
  rw [List.reverse_cons, List.append_assoc, List.singleton_append]

mutual

theorem Written.isReadAsNode : (written : Written) → written.IsReadAsNode
  | .null => readAsNode_scalar rfl .null
  | .boolean value => readAsNode_scalar rfl (.boolean value)
  | .number text _ => readAsNode_scalar rfl (.number text)
  | .string signs => readAsNode_scalar rfl (.string (Sign.textOf signs))
  | .emptyArray inside => readAsNode_emptyArray inside
  | .array items => readAsNode_array items.isReadAsNodes
  | .emptyObject inside => readAsNode_emptyObject inside
  | .object members => readAsNode_object members.isReadAsPairs

theorem Items.isReadAsNodes : (items : Items) → items.IsReadAsNodes
  | .last before item behind => readAsNodes_last before behind item.isReadAsNode
  | .cons before item behind others =>
    readAsNodes_cons before behind item.isReadAsNode others.isReadAsNodes

theorem Members.isReadAsPairs : (members : Members) → members.IsReadAsPairs
  | .last before _ beforeColon behindColon value behind =>
    readAsPairs_last before beforeColon behindColon behind value.isReadAsNode
  | .cons before _ beforeColon behindColon value behind others =>
    readAsPairs_cons before beforeColon behindColon behind value.isReadAsNode
      others.isReadAsPairs

end

theorem Written.nextDocument {written : Written} {stream : Stream}
    (contents : stream.contents = written.contents ++ [.streamEnd])
    (size : stream.size = stream.tokens.length) :
    ∃ root rest, stream.nextDocument true = .document root rest ∧
      rest.contents = [.streamEnd] ∧ Shows written.value root := by
  obtain ⟨content, others, starting, starts⟩ := written.exists_start
  have enough : 2 * written.contents.length ≤ 4 * stream.size + 8 := by
    have length := congrArg List.length contents
    rw [Stream.contents, List.length_map, List.length_append] at length
    omega
  obtain ⟨root, rest, read, atEnd, shows⟩ :=
    written.isReadAsNode _ true false stream _ contents enough
  rw [starting, List.cons_append] at contents
  obtain ⟨line, peeked, _⟩ := Stream.exists_line contents
  obtain ⟨last, ended, _⟩ := Stream.exists_line atEnd
  have readRoot : readRoot? stream = some (root, rest) := read
  have document : stream.implicitDocument = .document root rest := by
    rw [Stream.implicitDocument, readRoot]
    simp only [Stream.closeDocument, ended]
  have asked : stream.content? = some (content, line) := by
    rw [Stream.content?, peeked]
    rfl
  refine ⟨root, rest, ?_, atEnd, shows⟩
  simp only [Stream.nextDocument, if_true, asked]
  cases content with
  | scalar | flowSequenceStart | flowMappingStart => exact document
  | _ => simp [startsValue] at starts

theorem nextDocument_finished {stream : Stream} (contents : stream.contents = [.streamEnd]) :
    stream.nextDocument false = .finished := by
  obtain ⟨token, tail, tokens, isEnd, behind⟩ := List.map_eq_cons_iff.mp contents
  have goesOn : Stream.isDocumentEnd token = false := by
    rw [Stream.isDocumentEnd, isEnd]
    rfl
  have same : stream.tokens.dropWhile Stream.isDocumentEnd = stream.tokens := by
    rw [tokens, List.dropWhile_cons_of_neg (by simp [goesOn])]
  have asked : stream.content? = some (.streamEnd, token.line) := by
    rw [Stream.content?, Stream.peek?, tokens, ← isEnd]
    rfl
  simp only [Stream.nextDocument, Bool.false_eq_true, if_false, same, asked]

theorem exists_documents {document : Document} (fits : document.FitsYaml)
    (isCollection : document.root.IsCollection)
    (shallow : document.value.depth ≤ Scanner.greatestDepth) :
    ∃ root, documents (Text.ofChars document.chars) = ([root], true) ∧
      Shows document.value root := by
  have contents := contents_tokensOf fits isCollection shallow
  rw [documents, Stream.ofText]
  dsimp only
  generalize tokensOf (Text.ofChars document.chars) = tokens at contents ⊢
  have nonempty : 0 < tokens.length := by
    have length := congrArg List.length contents
    rw [List.length_map, List.length_append, List.length_singleton] at length
    omega
  obtain ⟨fuel, more⟩ := Nat.exists_eq_add_of_le' nonempty
  obtain ⟨root, rest, first, atEnd, shows⟩ :=
    document.root.nextDocument
      (show ({ tokens, size := tokens.length } : Stream).contents = _ from contents) rfl
  have last := nextDocument_finished atEnd
  refine ⟨root, ?_, shows⟩
  rw [more] at first ⊢
  simp only [Stream.documentsFrom, first, last]

end Json

end EntitySchema
