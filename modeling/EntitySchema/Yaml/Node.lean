import EntitySchema.Yaml.Scanner

/-!
The documents of a YAML stream as trees. Anchors are resolved while the tree is built, so an alias
holds the node that it stands for; the anchors of earlier documents stay known. An anchor is known
from the start of its node on, so an alias may stand inside the very node that it names.
-/

namespace EntitySchema.Yaml

inductive Node where
  | scalar (tag : Option Text) (style : ScalarStyle) (text : Text) (line : Nat)
  | sequence (tag : Option Text) (items : List Node) (line : Nat)
  | mapping (tag : Option Text) (pairs : List (Node × Node)) (line : Nat)
  /-- The serial tells an alias apart from all others. -/
  | alias (name : Text) (target : Node) (line serial : Nat)
  /-- An alias to a node around it in the same tree, told by the number of its anchor. -/
  | enclosing (name : Text) (order line serial : Nat)
  deriving Inhabited, Repr

namespace Node

def line : Node → Nat
  | .scalar _ _ _ line => line
  | .sequence _ _ line => line
  | .mapping _ _ line => line
  | .alias _ _ line _ => line
  | .enclosing _ _ line _ => line

def missing (line : Nat) : Node := .scalar none .plain [] line

end Node

structure Anchor where
  name : Text
  order : Nat
  /-- The node, once all of it has been read. -/
  node? : Option Node := none

def coreTagSpace : Text := utf8 "tag:yaml.org,2002:"

def commonHandles : List (Text × Text) :=
  [(utf8 "!", utf8 "!"), (utf8 "!!", coreTagSpace)]

structure Stream where
  tokens : List Token
  size : Nat
  handles : List (Text × Text) := commonHandles
  /-- The last one first, so that it hides those of the same name. -/
  anchors : List Anchor := []

namespace Stream

def peek? (stream : Stream) : Option Token := stream.tokens.head?

def next (stream : Stream) : Stream := { stream with tokens := stream.tokens.tail }

def content? (stream : Stream) : Option (TokenContent × Nat) :=
  stream.peek?.map fun token => (token.content, token.line)

def anchor? (stream : Stream) (name : Text) : Option Anchor :=
  stream.anchors.find? fun anchor => anchor.name = name

def start (stream : Stream) (name : Text) : Stream :=
  { stream with anchors := { name, order := stream.anchors.length } :: stream.anchors }

def complete (stream : Stream) (order : Nat) (node : Node) : Stream :=
  { stream with
    anchors := stream.anchors.map fun anchor =>
      if anchor.order = order then { anchor with node? := some node } else anchor }

def nodeAt? (stream : Stream) (order : Nat) : Option Node :=
  (stream.anchors.find? fun anchor => anchor.order = order).bind Anchor.node?

end Stream

def tagOf? (handles : List (Text × Text)) (handle suffix : Text) : Option Text :=
  let base := if handle.isEmpty then some [] else handles.lookup handle
  base.map fun base =>
    let full := base ++ suffix
    match Text.dropPrefix? coreTagSpace full with
    | some short => utf8 "!!" ++ short
    | none => full

structure Properties where
  anchor : Option Text := none
  tag : Option Text := none

namespace Properties

def specificTag (properties : Properties) : Option Text :=
  match properties.tag with
  | some tag => if tag = utf8 "!" then none else some tag
  | none => none

def isEmpty (properties : Properties) : Bool :=
  properties.anchor.isNone && properties.tag.isNone

def readAnchor (properties : Properties) (stream : Stream) : Properties × Stream :=
  match stream.peek? with
  | some ⟨.anchor name, _⟩ => ({ properties with anchor := some name }, stream.next)
  | _ => (properties, stream)

def readTag? (properties : Properties) (stream : Stream) : Option (Properties × Stream) :=
  match stream.peek? with
  | some ⟨.tag handle suffix, _⟩ =>
    (tagOf? stream.handles handle suffix).map fun tag =>
      ({ properties with tag := some tag }, stream.next)
  | _ => some (properties, stream)

def read? (stream : Stream) : Option (Properties × Stream) :=
  match stream.peek? with
  | some ⟨.tag .., _⟩ =>
    (readTag? {} stream).map fun (properties, stream) => properties.readAnchor stream
  | _ =>
    let (properties, stream) := readAnchor {} stream
    readTag? properties stream

end Properties

def endsBlockEntry (content : TokenContent) : Bool :=
  content == .key || content == .value || content == .blockEnd

namespace Node

mutual

/--
A node at the front of the stream. Block collections are read only if `block` is set, a sequence at
the column of its parent only if `indentless` is. The fuel bounds the number of steps.
-/
def read? : (fuel : Nat) → (block indentless : Bool) → Stream → Option (Node × Stream)
  | 0, _, _, _ => none
  | fuel + 1, block, indentless, stream => do
    let first ← stream.peek?
    match first.content with
    | .alias name =>
      let anchor ← stream.anchor? name
      let serial := stream.tokens.length
      match anchor.node? with
      | some target => some (.alias name target first.line serial, stream.next)
      | none => some (.enclosing name anchor.order first.line serial, stream.next)
    | _ =>
      let (properties, stream) ← Properties.read? stream
      match properties.anchor with
      | none => readContent? fuel block indentless properties first.line stream
      | some name =>
        let order := stream.anchors.length
        let (node, stream) ←
          readContent? fuel block indentless properties first.line (stream.start name)
        some (node, stream.complete order node)

def readContent? : (fuel : Nat) → (block indentless : Bool) → Properties → (line : Nat) →
    Stream → Option (Node × Stream)
  | 0, _, _, _, _, _ => none
  | fuel + 1, block, indentless, properties, line, stream => do
    let token ← stream.peek?
    match token.content with
    | .scalar text style => some (.scalar properties.specificTag style text line, stream.next)
    | .flowSequenceStart =>
      let (items, stream) ← readFlowItems? fuel true [] stream.next
      some (.sequence properties.specificTag items line, stream)
    | .flowMappingStart =>
      let (pairs, stream) ← readFlowPairs? fuel true [] stream.next
      some (.mapping properties.specificTag pairs line, stream)
    | content =>
      if indentless && content == .blockEntry then
        let (items, stream) ← readIndentlessItems? fuel [] stream
        some (.sequence properties.specificTag items line, stream)
      else if block && content == .blockSequenceStart then
        let (items, stream) ← readBlockItems? fuel [] stream.next
        some (.sequence properties.specificTag items line, stream)
      else if block && content == .blockMappingStart then
        let (pairs, stream) ← readBlockPairs? fuel [] stream.next
        some (.mapping properties.specificTag pairs line, stream)
      else if properties.isEmpty then none
      else some (.scalar properties.specificTag .plain [] line, stream)

def readBlockItems? : (fuel : Nat) → (done : List Node) → Stream → Option (List Node × Stream)
  | 0, _, _ => none
  | fuel + 1, done, stream => do
    let token ← stream.peek?
    match token.content with
    | .blockEnd => some (done.reverse, stream.next)
    | .blockEntry =>
      let stream := stream.next
      let following ← stream.peek?
      if following.content == .blockEntry || following.content == .blockEnd then
        readBlockItems? fuel (missing token.line :: done) stream
      else
        let (node, stream) ← read? fuel true false stream
        readBlockItems? fuel (node :: done) stream
    | _ => none

def readIndentlessItems? : (fuel : Nat) → (done : List Node) → Stream →
    Option (List Node × Stream)
  | 0, _, _ => none
  | fuel + 1, done, stream => do
    let token ← stream.peek?
    if token.content == .blockEntry then
      let stream := stream.next
      let following ← stream.peek?
      if following.content == .blockEntry || endsBlockEntry following.content then
        readIndentlessItems? fuel (missing token.line :: done) stream
      else
        let (node, stream) ← read? fuel true false stream
        readIndentlessItems? fuel (node :: done) stream
    else some (done.reverse, stream)

def readBlockPart? : (fuel : Nat) → (line : Nat) → Stream → Option (Node × Stream)
  | 0, _, _ => none
  | fuel + 1, line, stream => do
    let token ← stream.peek?
    if endsBlockEntry token.content then some (missing line, stream)
    else read? fuel true true stream

def readBlockPairs? : (fuel : Nat) → (done : List (Node × Node)) → Stream →
    Option (List (Node × Node) × Stream)
  | 0, _, _ => none
  | fuel + 1, done, stream => do
    let token ← stream.peek?
    match token.content with
    | .blockEnd => some (done.reverse, stream.next)
    | .key =>
      let (key, stream) ← readBlockPart? fuel token.line stream.next
      let mark ← stream.peek?
      if mark.content == .value then
        let (value, stream) ← readBlockPart? fuel mark.line stream.next
        readBlockPairs? fuel ((key, value) :: done) stream
      else readBlockPairs? fuel ((key, missing mark.line) :: done) stream
    | _ => none

def readFlowValue? : (fuel : Nat) → (closing : TokenContent) → Stream → Option (Node × Stream)
  | 0, _, _ => none
  | fuel + 1, closing, stream => do
    let token ← stream.peek?
    if token.content == .value then
      let stream := stream.next
      let following ← stream.peek?
      if following.content == .flowEntry || following.content == closing then
        some (missing following.line, stream)
      else read? fuel false false stream
    else some (missing token.line, stream)

def readFlowItems? : (fuel : Nat) → (isFirst : Bool) → (done : List Node) → Stream →
    Option (List Node × Stream)
  | 0, _, _, _ => none
  | fuel + 1, isFirst, done, stream => do
    let token ← stream.peek?
    if token.content == .flowSequenceEnd then some (done.reverse, stream.next)
    else if !isFirst && token.content != .flowEntry then none
    else
      let stream := if isFirst then stream else stream.next
      let token ← stream.peek?
      if token.content == .flowSequenceEnd then some (done.reverse, stream.next)
      else if token.content == .key then
        let stream := stream.next
        let mark ← stream.peek?
        let (key, stream) ←
          if mark.content == .value || mark.content == .flowEntry ||
              mark.content == .flowSequenceEnd then
            some (missing mark.line, stream.next)
          else read? fuel false false stream
        let (value, stream) ← readFlowValue? fuel .flowSequenceEnd stream
        readFlowItems? fuel false (.mapping none [(key, value)] token.line :: done) stream
      else
        let (node, stream) ← read? fuel false false stream
        readFlowItems? fuel false (node :: done) stream

def readFlowPairs? : (fuel : Nat) → (isFirst : Bool) → (done : List (Node × Node)) → Stream →
    Option (List (Node × Node) × Stream)
  | 0, _, _, _ => none
  | fuel + 1, isFirst, done, stream => do
    let token ← stream.peek?
    if token.content == .flowMappingEnd then some (done.reverse, stream.next)
    else if !isFirst && token.content != .flowEntry then none
    else
      let stream := if isFirst then stream else stream.next
      let token ← stream.peek?
      if token.content == .flowMappingEnd then some (done.reverse, stream.next)
      else if token.content == .key then
        let stream := stream.next
        let mark ← stream.peek?
        let (key, stream) ←
          if mark.content == .value || mark.content == .flowEntry ||
              mark.content == .flowMappingEnd then
            some (missing mark.line, stream)
          else read? fuel false false stream
        let (value, stream) ← readFlowValue? fuel .flowMappingEnd stream
        readFlowPairs? fuel false ((key, value) :: done) stream
      else
        let (key, stream) ← read? fuel false false stream
        let following ← stream.peek?
        readFlowPairs? fuel false ((key, missing following.line) :: done) stream

end

def readRoot? (stream : Stream) : Option (Node × Stream) :=
  read? (4 * stream.size + 8) true false stream

end Node

inductive NextDocument where
  | finished
  | document (root : Node) (rest : Stream)
  | unreadable

namespace Stream

def ofText (text : Text) : Stream :=
  let tokens := tokensOf text
  { tokens := tokens, size := tokens.length }

def closeDocument (root : Node) (stream : Stream) : NextDocument :=
  match stream.peek? with
  | none => .unreadable
  | some ⟨.documentEnd, _⟩ => .document root stream.next
  | some _ => .document root stream

def isDocumentEnd (token : Token) : Bool := token.content == .documentEnd

def endsDocument : TokenContent → Bool
  | .directive _ => true
  | .documentStart => true
  | .documentEnd => true
  | .streamEnd => true
  | _ => false

def implicitDocument (stream : Stream) : NextDocument :=
  match Node.readRoot? stream with
  | none => .unreadable
  | some (root, stream) => closeDocument root stream

def explicitDocument (stream : Stream) : NextDocument :=
  match stream.content? with
  | none => .unreadable
  | some (content, line) =>
    if endsDocument content then closeDocument (Node.missing line) stream
    else implicitDocument stream

/--
The handles that the directives at the front of some tokens declare, and the tokens behind them. A
document has one version at most, which must be 1.1, and declares a handle once.
-/
def readDirectives? : (hasVersion : Bool) → (handles : List (Text × Text)) → List Token →
    Option (List (Text × Text) × List Token)
  | hasVersion, handles, ⟨.directive (.version major minor), _⟩ :: tokens =>
    if hasVersion || major ≠ 1 || minor ≠ 1 then none else readDirectives? true handles tokens
  | hasVersion, handles, ⟨.directive (.tag handle base), _⟩ :: tokens =>
    if (handles.lookup handle).isSome then none
    else readDirectives? hasVersion ((handle, base) :: handles) tokens
  | _, handles, tokens => some (handles, tokens)

def announcedDocument (stream : Stream) : NextDocument :=
  match readDirectives? false [] stream.tokens with
  | some (handles, ⟨.documentStart, _⟩ :: tokens) =>
    explicitDocument { stream with tokens := tokens, handles := handles ++ commonHandles }
  | _ => .unreadable

def nextDocument (isFirst : Bool) (stream : Stream) : NextDocument :=
  let stream :=
    if isFirst then stream else { stream with tokens := stream.tokens.dropWhile isDocumentEnd }
  match stream.content? with
  | none => .unreadable
  | some (.streamEnd, _) => .finished
  | some (content, _) =>
    if isFirst && !endsDocument content then implicitDocument stream
    else announcedDocument stream

def documentsFrom : (fuel : Nat) → (isFirst : Bool) → Stream → List Node × Bool
  | 0, _, _ => ([], false)
  | fuel + 1, isFirst, stream =>
    match stream.nextDocument isFirst with
    | .finished => ([], true)
    | .unreadable => ([], false)
    | .document root rest =>
      let (roots, isReadable) := documentsFrom fuel false rest
      (root :: roots, isReadable)

end Stream

/-- The documents of a text; each takes a token, so their number is a bound. -/
def documents (text : Text) : List Node × Bool :=
  let stream := Stream.ofText text
  Stream.documentsFrom (stream.size + 1) true stream

def firstDocument? (text : Text) : Option (Option (Node × Stream)) :=
  match (Stream.ofText text).nextDocument true with
  | .finished => some none
  | .unreadable => none
  | .document root rest => some (some (root, rest))

end EntitySchema.Yaml
