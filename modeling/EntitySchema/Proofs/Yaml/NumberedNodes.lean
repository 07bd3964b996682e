import EntitySchema.Proofs.Yaml.Numbered
import EntitySchema.Yaml.Node

/-!
Every node of a YAML stream stands on a line: it takes the line of the token that it starts with, or
of the token that shows it to be missing.
-/

namespace EntitySchema.Yaml

inductive Node.Numbered : Node → Prop where
  | scalar {tag : Option Text} {style : ScalarStyle} {text : Text} {line : Nat} (own : 0 < line) :
    Numbered (.scalar tag style text line)
  | sequence {tag : Option Text} {items : List Node} {line : Nat} (own : 0 < line)
    (inside : ∀ item ∈ items, item.Numbered) : Numbered (.sequence tag items line)
  | mapping {tag : Option Text} {pairs : List (Node × Node)} {line : Nat} (own : 0 < line)
    (keys : ∀ pair ∈ pairs, pair.1.Numbered) (values : ∀ pair ∈ pairs, pair.2.Numbered) :
    Numbered (.mapping tag pairs line)
  | reference {name : Text} {target : Node} {line serial : Nat} (own : 0 < line)
    (behind : target.Numbered) : Numbered (.alias name target line serial)
  | enclosing {name : Text} {order line serial : Nat} (own : 0 < line) :
    Numbered (.enclosing name order line serial)

theorem Node.Numbered.line {node : Node} (numbered : node.Numbered) : 0 < node.line := by
  cases numbered <;> assumption

/-- The tokens that are left stand on lines, and so do the nodes that aliases may stand for. -/
structure Stream.Numbered (stream : Stream) : Prop where
  tokens : ∀ token ∈ stream.tokens, token.Numbered
  anchors : ∀ anchor ∈ stream.anchors, ∀ node ∈ anchor.node?, node.Numbered

namespace Stream

variable {stream : Stream}

theorem Numbered.peek? {token : Token} (numbered : stream.Numbered)
    (first : stream.peek? = some token) : 0 < token.line :=
  numbered.tokens token (List.mem_of_head? first)

theorem Numbered.next (numbered : stream.Numbered) : stream.next.Numbered :=
  ⟨fun token member => numbered.tokens token (List.mem_of_mem_tail member), numbered.anchors⟩

theorem Numbered.anchor? {name : Text} {anchor : Anchor} {node : Node}
    (numbered : stream.Numbered) (found : stream.anchor? name = some anchor)
    (known : anchor.node? = some node) : node.Numbered :=
  numbered.anchors anchor (List.mem_of_find?_eq_some found) node known

theorem Numbered.start (numbered : stream.Numbered) (name : Text) :
    (stream.start name).Numbered :=
  ⟨numbered.tokens,
    List.forall_mem_cons.mpr ⟨fun _ known => (nomatch known), numbered.anchors⟩⟩

theorem Numbered.complete {node : Node} (numbered : stream.Numbered) (order : Nat)
    (known : node.Numbered) : (stream.complete order node).Numbered := by
  refine ⟨numbered.tokens, List.forall_mem_map.mpr fun anchor member => ?_⟩
  split
  · exact fun _ same => Option.some.inj same ▸ known
  · exact numbered.anchors anchor member

end Stream

namespace Properties

variable {stream rest : Stream} {properties found : Properties}

theorem numbered_readAnchor (properties : Properties) (numbered : stream.Numbered) :
    (properties.readAnchor stream).2.Numbered := by
  unfold readAnchor
  split
  · exact numbered.next
  · exact numbered

theorem numbered_of_readTag? (numbered : stream.Numbered)
    (read : properties.readTag? stream = some (found, rest)) : rest.Numbered := by
  unfold readTag? at read
  split at read
  · obtain ⟨tag, _, same⟩ := Option.map_eq_some_iff.mp read
    exact (Prod.mk.inj same).2 ▸ numbered.next
  · exact (Prod.mk.inj (Option.some.inj read)).2 ▸ numbered

theorem numbered_of_read? (numbered : stream.Numbered)
    (read : read? stream = some (found, rest)) : rest.Numbered := by
  unfold read? at read
  split at read
  · obtain ⟨⟨tagged, middle⟩, tag, same⟩ := Option.map_eq_some_iff.mp read
    have anchored : tagged.readAnchor middle = (found, rest) := same
    have after := numbered_readAnchor tagged (numbered_of_readTag? numbered tag)
    rwa [anchored] at after
  · exact numbered_of_readTag? (numbered_readAnchor {} numbered) read

end Properties

namespace Node

def KeepsNode (reader : Stream → Option (Node × Stream)) : Prop :=
  ∀ {stream node rest}, stream.Numbered → reader stream = some (node, rest) →
    node.Numbered ∧ rest.Numbered

def KeepsItems (reader : List Node → Stream → Option (List Node × Stream)) : Prop :=
  ∀ {done stream items rest}, (∀ item ∈ done, item.Numbered) → stream.Numbered →
    reader done stream = some (items, rest) → (∀ item ∈ items, item.Numbered) ∧ rest.Numbered

def PairsNumbered (pairs : List (Node × Node)) : Prop :=
  ∀ pair ∈ pairs, pair.1.Numbered ∧ pair.2.Numbered

def KeepsPairs (reader : List (Node × Node) → Stream → Option (List (Node × Node) × Stream)) :
    Prop :=
  ∀ {done stream pairs rest}, PairsNumbered done → stream.Numbered →
    reader done stream = some (pairs, rest) → PairsNumbered pairs ∧ rest.Numbered

/-- The readers with some fuel: they call each other with less of it. -/
structure Keeps (fuel : Nat) : Prop where
  node : ∀ block indentless, KeepsNode (read? fuel block indentless)
  content : ∀ block indentless properties {line}, 0 < line →
    KeepsNode (readContent? fuel block indentless properties line)
  blockItems : KeepsItems (readBlockItems? fuel)
  indentlessItems : KeepsItems (readIndentlessItems? fuel)
  blockPart : ∀ {line}, 0 < line → KeepsNode (readBlockPart? fuel line)
  blockPairs : KeepsPairs (readBlockPairs? fuel)
  flowValue : ∀ closing, KeepsNode (readFlowValue? fuel closing)
  flowItems : ∀ isFirst, KeepsItems (readFlowItems? fuel isFirst)
  flowPairs : ∀ isFirst, KeepsPairs (readFlowPairs? fuel isFirst)

variable {fuel : Nat}

theorem numbered_missing {line : Nat} (positive : 0 < line) : (missing line).Numbered :=
  .scalar positive

theorem mem_reverse_numbered {done : List Node} (before : ∀ item ∈ done, item.Numbered) :
    ∀ item ∈ done.reverse, item.Numbered :=
  fun item member => before item (List.mem_reverse.mp member)

theorem Keeps.read? (keeps : Keeps fuel) (block indentless : Bool) :
    KeepsNode (read? (fuel + 1) block indentless) := by
  intro stream node rest numbered read
  simp only [Node.read?, Option.bind_eq_bind, Option.bind_eq_some_iff] at read
  obtain ⟨first, ahead, read⟩ := read
  have own := numbered.peek? ahead
  split at read
  next name _ =>
    obtain ⟨anchor, found, same⟩ := Option.bind_eq_some_iff.mp read
    cases known : anchor.node? with
    | none =>
        rw [known] at same
        obtain ⟨rfl, rfl⟩ := Prod.mk.inj (Option.some.inj same)
        exact ⟨.enclosing own, numbered.next⟩
    | some target =>
        rw [known] at same
        obtain ⟨rfl, rfl⟩ := Prod.mk.inj (Option.some.inj same)
        exact ⟨.reference own (numbered.anchor? found known), numbered.next⟩
  next =>
    obtain ⟨⟨properties, behind⟩, described, read⟩ := Option.bind_eq_some_iff.mp read
    have described := Properties.numbered_of_read? numbered described
    split at read
    next => exact keeps.content block indentless properties own described read
    next name _ =>
      obtain ⟨⟨found, after⟩, content, same⟩ := Option.bind_eq_some_iff.mp read
      obtain ⟨rfl, rfl⟩ := Prod.mk.inj (Option.some.inj same)
      have inside := keeps.content block indentless properties own (described.start name) content
      exact ⟨inside.1, inside.2.complete _ inside.1⟩

theorem numbered_sequence {reader : Option (List Node × Stream)} {tag : Option Text} {line : Nat}
    {node : Node} {rest : Stream} (own : 0 < line)
    (inside : ∀ {items after}, reader = some (items, after) →
      (∀ item ∈ items, item.Numbered) ∧ after.Numbered)
    (read : (reader.bind fun read => some (Node.sequence tag read.1 line, read.2)) =
      some (node, rest)) : node.Numbered ∧ rest.Numbered := by
  obtain ⟨⟨items, after⟩, ran, same⟩ := Option.bind_eq_some_iff.mp read
  obtain ⟨rfl, rfl⟩ := Prod.mk.inj (Option.some.inj same)
  exact ⟨.sequence own (inside ran).1, (inside ran).2⟩

theorem numbered_mapping {reader : Option (List (Node × Node) × Stream)} {tag : Option Text}
    {line : Nat} {node : Node} {rest : Stream} (own : 0 < line)
    (inside : ∀ {pairs after}, reader = some (pairs, after) →
      PairsNumbered pairs ∧ after.Numbered)
    (read : (reader.bind fun read => some (Node.mapping tag read.1 line, read.2)) =
      some (node, rest)) : node.Numbered ∧ rest.Numbered := by
  obtain ⟨⟨pairs, after⟩, ran, same⟩ := Option.bind_eq_some_iff.mp read
  obtain ⟨rfl, rfl⟩ := Prod.mk.inj (Option.some.inj same)
  have held := (inside ran).1
  exact ⟨.mapping own (fun pair member => (held pair member).1)
    (fun pair member => (held pair member).2), (inside ran).2⟩

theorem Keeps.readContent? (keeps : Keeps fuel) (block indentless : Bool)
    (properties : Properties) {line : Nat} (own : 0 < line) :
    KeepsNode (readContent? (fuel + 1) block indentless properties line) := by
  intro stream node rest numbered read
  simp only [Node.readContent?, Option.bind_eq_bind, Option.bind_eq_some_iff] at read
  obtain ⟨token, ahead, read⟩ := read
  have none : ∀ node ∈ ([] : List Node), node.Numbered := fun _ member => nomatch member
  have noPairs : PairsNumbered [] := fun _ member => nomatch member
  split at read
  · obtain ⟨rfl, rfl⟩ := Prod.mk.inj (Option.some.inj read)
    exact ⟨.scalar own, numbered.next⟩
  · exact numbered_sequence own (keeps.flowItems true none numbered.next) read
  · exact numbered_mapping own (keeps.flowPairs true noPairs numbered.next) read
  · split at read
    · exact numbered_sequence own (keeps.indentlessItems none numbered) read
    · split at read
      · exact numbered_sequence own (keeps.blockItems none numbered.next) read
      · split at read
        · exact numbered_mapping own (keeps.blockPairs noPairs numbered.next) read
        · split at read
          · contradiction
          · obtain ⟨rfl, rfl⟩ := Prod.mk.inj (Option.some.inj read)
            exact ⟨.scalar own, numbered⟩

theorem Keeps.readBlockItems? (keeps : Keeps fuel) : KeepsItems (readBlockItems? (fuel + 1)) := by
  intro done stream items rest before numbered read
  simp only [Node.readBlockItems?, Option.bind_eq_bind, Option.bind_eq_some_iff] at read
  obtain ⟨token, ahead, read⟩ := read
  split at read
  · obtain ⟨rfl, rfl⟩ := Prod.mk.inj (Option.some.inj read)
    exact ⟨mem_reverse_numbered before, numbered.next⟩
  · obtain ⟨following, _, read⟩ := Option.bind_eq_some_iff.mp read
    split at read
    · have missing := numbered_missing (numbered.peek? ahead)
      exact keeps.blockItems (List.forall_mem_cons.mpr ⟨missing, before⟩) numbered.next read
    · obtain ⟨⟨node, after⟩, item, read⟩ := Option.bind_eq_some_iff.mp read
      have inside := keeps.node _ _ numbered.next item
      exact keeps.blockItems (List.forall_mem_cons.mpr ⟨inside.1, before⟩) inside.2 read
  · contradiction

theorem Keeps.readIndentlessItems? (keeps : Keeps fuel) :
    KeepsItems (readIndentlessItems? (fuel + 1)) := by
  intro done stream items rest before numbered read
  simp only [Node.readIndentlessItems?, Option.bind_eq_bind, Option.bind_eq_some_iff] at read
  obtain ⟨token, ahead, read⟩ := read
  split at read
  · obtain ⟨following, _, read⟩ := Option.bind_eq_some_iff.mp read
    split at read
    · have missing := numbered_missing (numbered.peek? ahead)
      exact keeps.indentlessItems (List.forall_mem_cons.mpr ⟨missing, before⟩) numbered.next read
    · obtain ⟨⟨node, after⟩, item, read⟩ := Option.bind_eq_some_iff.mp read
      have inside := keeps.node _ _ numbered.next item
      exact keeps.indentlessItems (List.forall_mem_cons.mpr ⟨inside.1, before⟩) inside.2 read
  · obtain ⟨rfl, rfl⟩ := Prod.mk.inj (Option.some.inj read)
    exact ⟨mem_reverse_numbered before, numbered⟩

theorem Keeps.readBlockPart? (keeps : Keeps fuel) {line : Nat} (own : 0 < line) :
    KeepsNode (readBlockPart? (fuel + 1) line) := by
  intro stream node rest numbered read
  simp only [Node.readBlockPart?, Option.bind_eq_bind, Option.bind_eq_some_iff] at read
  obtain ⟨token, ahead, read⟩ := read
  split at read
  · obtain ⟨rfl, rfl⟩ := Prod.mk.inj (Option.some.inj read)
    exact ⟨numbered_missing own, numbered⟩
  · exact keeps.node _ _ numbered read

theorem pairsNumbered_cons {key value : Node} {done : List (Node × Node)}
    (left : key.Numbered) (right : value.Numbered) (before : PairsNumbered done) :
    PairsNumbered ((key, value) :: done) :=
  List.forall_mem_cons.mpr ⟨⟨left, right⟩, before⟩

theorem mem_reverse_pairsNumbered {done : List (Node × Node)} (before : PairsNumbered done) :
    PairsNumbered done.reverse :=
  fun pair member => before pair (List.mem_reverse.mp member)

theorem Keeps.readBlockPairs? (keeps : Keeps fuel) : KeepsPairs (readBlockPairs? (fuel + 1)) := by
  intro done stream pairs rest before numbered read
  simp only [Node.readBlockPairs?, Option.bind_eq_bind, Option.bind_eq_some_iff] at read
  obtain ⟨token, ahead, read⟩ := read
  split at read
  · obtain ⟨rfl, rfl⟩ := Prod.mk.inj (Option.some.inj read)
    exact ⟨mem_reverse_pairsNumbered before, numbered.next⟩
  · simp only [Option.bind_eq_some_iff, Prod.exists] at read
    obtain ⟨key, middle, first, mark, between, read⟩ := read
    have left := keeps.blockPart (numbered.peek? ahead) numbered.next first
    have beneath := left.2.peek? between
    split at read
    · obtain ⟨⟨value, after⟩, second, read⟩ := Option.bind_eq_some_iff.mp read
      have right := keeps.blockPart beneath left.2.next second
      exact keeps.blockPairs (pairsNumbered_cons left.1 right.1 before) right.2 read
    · have missing := numbered_missing beneath
      exact keeps.blockPairs (pairsNumbered_cons left.1 missing before) left.2 read
  · contradiction

theorem Keeps.readFlowValue? (keeps : Keeps fuel) (closing : TokenContent) :
    KeepsNode (readFlowValue? (fuel + 1) closing) := by
  intro stream node rest numbered read
  simp only [Node.readFlowValue?, Option.bind_eq_bind, Option.bind_eq_some_iff] at read
  obtain ⟨token, ahead, read⟩ := read
  split at read
  · obtain ⟨following, behind, read⟩ := Option.bind_eq_some_iff.mp read
    split at read
    · obtain ⟨rfl, rfl⟩ := Prod.mk.inj (Option.some.inj read)
      exact ⟨numbered_missing (numbered.next.peek? behind), numbered.next⟩
    · exact keeps.node _ _ numbered.next read
  · obtain ⟨rfl, rfl⟩ := Prod.mk.inj (Option.some.inj read)
    exact ⟨numbered_missing (numbered.peek? ahead), numbered⟩

theorem numbered_entry {stream : Stream} (numbered : stream.Numbered) (isFirst : Bool) :
    (if isFirst then stream else stream.next).Numbered := by
  split
  · exact numbered
  · exact numbered.next

theorem Keeps.readFlowItems? (keeps : Keeps fuel) (isFirst : Bool) :
    KeepsItems (readFlowItems? (fuel + 1) isFirst) := by
  intro done stream items rest before numbered read
  simp only [Node.readFlowItems?, Option.bind_eq_bind, Option.bind_eq_some_iff] at read
  obtain ⟨token, ahead, read⟩ := read
  split at read
  · obtain ⟨rfl, rfl⟩ := Prod.mk.inj (Option.some.inj read)
    exact ⟨mem_reverse_numbered before, numbered.next⟩
  · split at read
    · contradiction
    · have place := numbered_entry numbered isFirst
      generalize (if isFirst = true then stream else stream.next) = start at place read
      obtain ⟨token, atEntry, read⟩ := Option.bind_eq_some_iff.mp read
      have own := place.peek? atEntry
      split at read
      · obtain ⟨rfl, rfl⟩ := Prod.mk.inj (Option.some.inj read)
        exact ⟨mem_reverse_numbered before, place.next⟩
      · split at read
        · obtain ⟨mark, behind, read⟩ := Option.bind_eq_some_iff.mp read
          have pair : ∀ {key : Node} {middle : Stream}, key.Numbered → middle.Numbered →
              ((Node.readFlowValue? fuel .flowSequenceEnd middle).bind fun value =>
                Node.readFlowItems? fuel false (.mapping none [(key, value.1)] token.line :: done)
                  value.2) = some (items, rest) →
              (∀ item ∈ items, item.Numbered) ∧ rest.Numbered := by
            intro key middle left reached read
            obtain ⟨⟨value, after⟩, second, read⟩ := Option.bind_eq_some_iff.mp read
            have right := keeps.flowValue _ reached second
            have held : Numbered (.mapping none [(key, value)] token.line) :=
              .mapping own (by simpa using left) (by simpa using right.1)
            exact keeps.flowItems _ (List.forall_mem_cons.mpr ⟨held, before⟩) right.2 read
          split at read
          · exact pair (numbered_missing (place.next.peek? behind)) place.next.next read
          · obtain ⟨⟨key, middle⟩, first, read⟩ := Option.bind_eq_some_iff.mp read
            have left := keeps.node _ _ place.next first
            exact pair left.1 left.2 read
        · obtain ⟨⟨node, after⟩, item, read⟩ := Option.bind_eq_some_iff.mp read
          have inside := keeps.node _ _ place item
          exact keeps.flowItems _ (List.forall_mem_cons.mpr ⟨inside.1, before⟩) inside.2 read

theorem Keeps.readFlowPairs? (keeps : Keeps fuel) (isFirst : Bool) :
    KeepsPairs (readFlowPairs? (fuel + 1) isFirst) := by
  intro done stream pairs rest before numbered read
  simp only [Node.readFlowPairs?, Option.bind_eq_bind, Option.bind_eq_some_iff] at read
  obtain ⟨token, ahead, read⟩ := read
  split at read
  · obtain ⟨rfl, rfl⟩ := Prod.mk.inj (Option.some.inj read)
    exact ⟨mem_reverse_pairsNumbered before, numbered.next⟩
  · split at read
    · contradiction
    · have place := numbered_entry numbered isFirst
      generalize (if isFirst = true then stream else stream.next) = start at place read
      obtain ⟨token, atEntry, read⟩ := Option.bind_eq_some_iff.mp read
      split at read
      · obtain ⟨rfl, rfl⟩ := Prod.mk.inj (Option.some.inj read)
        exact ⟨mem_reverse_pairsNumbered before, place.next⟩
      · split at read
        · obtain ⟨mark, behind, read⟩ := Option.bind_eq_some_iff.mp read
          have pair : ∀ {key : Node} {middle : Stream}, key.Numbered → middle.Numbered →
              ((Node.readFlowValue? fuel .flowMappingEnd middle).bind fun value =>
                Node.readFlowPairs? fuel false ((key, value.1) :: done) value.2) =
                  some (pairs, rest) →
              PairsNumbered pairs ∧ rest.Numbered := by
            intro key middle left reached read
            obtain ⟨⟨value, after⟩, second, read⟩ := Option.bind_eq_some_iff.mp read
            have right := keeps.flowValue _ reached second
            exact keeps.flowPairs _ (pairsNumbered_cons left right.1 before) right.2 read
          split at read
          · exact pair (numbered_missing (place.next.peek? behind)) place.next read
          · obtain ⟨⟨key, middle⟩, first, read⟩ := Option.bind_eq_some_iff.mp read
            have left := keeps.node _ _ place.next first
            exact pair left.1 left.2 read
        · simp only [Option.bind_eq_some_iff, Prod.exists] at read
          obtain ⟨key, middle, first, following, behind, read⟩ := read
          have left := keeps.node _ _ place first
          have missing := numbered_missing (left.2.peek? behind)
          exact keeps.flowPairs _ (pairsNumbered_cons left.1 missing before) left.2 read

theorem keeps (fuel : Nat) : Keeps fuel := by
  induction fuel with
  | zero =>
      constructor <;> intros <;> intro _ _ _ <;> intros <;> contradiction
  | succ fuel ih =>
      exact ⟨ih.read?, ih.readContent?, ih.readBlockItems?, ih.readIndentlessItems?,
        ih.readBlockPart?, ih.readBlockPairs?, ih.readFlowValue?, ih.readFlowItems?,
        ih.readFlowPairs?⟩

theorem numbered_of_readRoot? {stream rest : Stream} {root : Node} (numbered : stream.Numbered)
    (read : readRoot? stream = some (root, rest)) : root.Numbered ∧ rest.Numbered :=
  (keeps _).node _ _ numbered read

end Node

def NextDocument.Numbered : NextDocument → Prop
  | .document root rest => root.Numbered ∧ rest.Numbered
  | .finished | .unreadable => True

namespace Stream

variable {stream : Stream}

theorem Numbered.closeDocument {root : Node} (numbered : stream.Numbered)
    (known : root.Numbered) : (closeDocument root stream).Numbered := by
  unfold Stream.closeDocument
  split
  · trivial
  · exact ⟨known, numbered.next⟩
  · exact ⟨known, numbered⟩

theorem Numbered.implicitDocument (numbered : stream.Numbered) :
    stream.implicitDocument.Numbered := by
  unfold Stream.implicitDocument
  split
  · trivial
  next root rest read =>
    have inside := Node.numbered_of_readRoot? numbered read
    exact inside.2.closeDocument inside.1

theorem Numbered.explicitDocument (numbered : stream.Numbered) :
    stream.explicitDocument.Numbered := by
  unfold Stream.explicitDocument
  split
  · trivial
  next content line ahead =>
    obtain ⟨token, first, same⟩ := Option.map_eq_some_iff.mp ahead
    have own : 0 < line := (Prod.mk.inj same).2 ▸ numbered.peek? first
    split
    · exact numbered.closeDocument (Node.numbered_missing own)
    · exact numbered.implicitDocument

theorem mem_of_readDirectives? {hasVersion : Bool} {handles found : List (Text × Text)}
    {tokens rest : List Token} {token : Token}
    (read : readDirectives? hasVersion handles tokens = some (found, rest))
    (member : token ∈ rest) : token ∈ tokens := by
  fun_induction readDirectives? hasVersion handles tokens with
  | case1 => contradiction
  | case2 _ _ _ _ _ _ _ ih => exact List.mem_cons_of_mem _ (ih read)
  | case3 => contradiction
  | case4 _ _ _ _ _ _ _ ih => exact List.mem_cons_of_mem _ (ih read)
  | case5 => exact (Prod.mk.inj (Option.some.inj read)).2 ▸ member

theorem Numbered.announcedDocument (numbered : stream.Numbered) :
    stream.announcedDocument.Numbered := by
  unfold Stream.announcedDocument
  split
  next handles line tokens read =>
    refine Numbered.explicitDocument ⟨fun token member => ?_, numbered.anchors⟩
    exact numbered.tokens token (mem_of_readDirectives? read (List.mem_cons_of_mem _ member))
  · trivial

theorem Numbered.nextDocument (numbered : stream.Numbered) (isFirst : Bool) :
    (stream.nextDocument isFirst).Numbered := by
  rw [Stream.nextDocument]
  generalize place : (if isFirst = true then stream else _) = start
  have behind : start.Numbered := by
    rw [← place]
    split
    · exact numbered
    · refine ⟨fun token member => ?_, numbered.anchors⟩
      exact numbered.tokens token ((List.dropWhile_sublist _).subset member)
  split
  · trivial
  · trivial
  · split
    · exact behind.implicitDocument
    · exact behind.announcedDocument

theorem Numbered.documentsFrom (numbered : stream.Numbered) (fuel : Nat) (isFirst : Bool) :
    ∀ root ∈ (stream.documentsFrom fuel isFirst).1, root.Numbered := by
  induction fuel generalizing stream isFirst with
  | zero => exact fun _ member => nomatch member
  | succ fuel ih =>
      have next := numbered.nextDocument isFirst
      rw [Stream.documentsFrom]
      split
      · exact fun _ member => nomatch member
      · exact fun _ member => nomatch member
      next root rest found =>
        rw [found] at next
        exact List.forall_mem_cons.mpr ⟨next.1, ih next.2 false⟩

theorem numbered_ofText (text : Text) : (ofText text).Numbered := by
  have inside := numbered_tokensOf text
  rw [ofText]
  generalize tokensOf text = tokens at inside
  exact ⟨inside, fun anchor member => nomatch member⟩

end Stream

theorem numbered_of_mem_documents {text : Text} {root : Node} (member : root ∈ (documents text).1) :
    root.Numbered := by
  have stream := Stream.numbered_ofText text
  rw [documents] at member
  generalize Stream.ofText text = start at stream member
  exact stream.documentsFrom _ true root member

theorem numbered_of_firstDocument? {text : Text} {root : Node}
    {rest : Stream} (found : firstDocument? text = some (some (root, rest))) :
    root.Numbered := by
  have stream := Stream.numbered_ofText text
  unfold firstDocument? at found
  generalize Stream.ofText text = start at stream found
  have next := stream.nextDocument true
  generalize start.nextDocument true = first at next found
  split at found
  · exact nomatch Option.some.inj found
  · contradiction
  · obtain ⟨rfl, rfl⟩ := Prod.mk.inj (Option.some.inj (Option.some.inj found))
    exact next.1

end EntitySchema.Yaml
