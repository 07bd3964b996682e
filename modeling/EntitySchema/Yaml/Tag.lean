import EntitySchema.Yaml.Scalar

/-!
The text of tags and directives. A tag is a handle and a suffix; a directive line says which
version of YAML a document is written in, or what a handle stands for.
-/

namespace EntitySchema.Yaml

def isWordChar (char : Char) : Bool :=
  char.isAlphanum || char = '_' || char = '-'

def isTagChar (char : Char) : Bool :=
  isWordChar char || (";/?:@&=+$,.!~*'()[]%".toList.contains char)

def readWord (source : Source) : List Char × Source :=
  let source := source.want 1
  let word := source.rest.takeWhile isWordChar
  (word, source.pass 1 word.length)

namespace Tag

def readOctet? (source : Source) : Option (Byte × Source) :=
  let source := source.want 3
  match source.rest with
  | '%' :: high :: low :: _ => do
    let high ← Scalar.hexCharValue? high
    let low ← Scalar.hexCharValue? low
    some ((high * 16 + low).toUInt8, source.skipMany 3)
  | _ => none

def readContinuation? : (count : Nat) → Source → Option (Text × Source)
  | 0, source => some ([], source)
  | count + 1, source =>
    match readOctet? source with
    | none => none
    | some (octet, source) =>
      if Rune.isContinuation octet then
        (readContinuation? count source).map fun (octets, source) => (octet :: octets, source)
      else none

def readEscape? (source : Source) : Option (Text × Source) := do
  let (first, source) ← readOctet? source
  let size ← Decoded.utf8Size? first
  let (octets, source) ← readContinuation? (size - 1) source
  some (first :: octets, source)

def readUriFrom? : (fuel : Nat) → (done : Text) → Source → Option (Text × Source)
  | 0, _, _ => none
  | fuel + 1, done, source =>
    let source := source.want 1
    match source.peek? with
    | none => some (done.reverse, source)
    | some char =>
      if !isTagChar char then some (done.reverse, source)
      else if char = '%' then
        match readEscape? source with
        | none => none
        | some (octets, source) => readUriFrom? fuel (octets.reverse ++ done) source
      else readUriFrom? fuel (char.toNat.toUInt8 :: done) source.skip

def readUri? (source : Source) : Option (Text × Source) :=
  readUriFrom? (source.remaining + 1) [] source

def readNonemptyUri? (source : Source) : Option (Text × Source) :=
  (readUri? source).filter fun (uri, _) => !uri.isEmpty

/-- A handle: an exclamation mark, and perhaps a word and a second mark behind it. -/
def readHandle? (source : Source) : Option (Text × Source) :=
  let source := source.want 1
  if source.nextIs '!' then
    let (word, source) := readWord source.skip
    let name := Text.ofChars ('!' :: word)
    if source.nextIs '!' then some (name ++ utf8 "!", source.skip) else some (name, source)
  else none

def isClosed (handle : Text) : Bool := 1 < handle.length && handle.getLast? = some 0x21

def read? (source : Source) : Option (Text × Text × Source) := do
  let source := source.want 2
  let (handle, suffix, source) ←
    if source.peekAt? 1 == some '<' then
      (readNonemptyUri? source.skip.skip).bind fun (uri, source) =>
        if source.nextIs '>' then some ([], uri, source.skip) else none
    else
      (readHandle? source).bind fun (handle, source) =>
        if isClosed handle then
          (readNonemptyUri? source).map fun (uri, source) => (handle, uri, source)
        else
          (readUri? source).map fun (uri, source) =>
            match handle.drop 1 ++ uri with
            | [] => ([], handle, source)
            | suffix => (utf8 "!", suffix, source)
  let source := source.want 1
  if isGap source.peek? then some (handle, suffix, source) else none

end Tag

inductive Directive where
  | version (major minor : Nat)
  | tag (handle base : Text)
  deriving DecidableEq, Repr

namespace Directive

def readNumber? (source : Source) : Option (Nat × Source) :=
  let source := source.want 1
  let digits := source.rest.takeWhile Char.isDigit
  if digits.length = 0 || 2 < digits.length then none
  else some (Text.digitsValue (Text.ofChars digits), source.pass 1 digits.length)

def readVersion? (source : Source) : Option (Directive × Source) := do
  let (major, source) ← readNumber? (source.skipWhile isBlank)
  if source.nextIs '.' then
    let (minor, source) ← readNumber? source.skip
    some (.version major minor, source)
  else none

def readTag? (source : Source) : Option (Directive × Source) := do
  let (handle, source) ← Tag.readHandle? (source.skipWhile isBlank)
  let source := source.want 1
  if (handle = utf8 "!" || Tag.isClosed handle) && source.isAtBlank then
    let (base, source) ← Tag.readNonemptyUri? (source.skipWhile isBlank)
    let source := source.want 1
    if isGap source.peek? then some (.tag handle base, source) else none
  else none

def read? (source : Source) : Option (Directive × Source) := do
  let (name, source) := readWord source.skip
  if isGap source.peek? then
    let (directive, source) ←
      if name = "YAML".toList then readVersion? source
      else if name = "TAG".toList then readTag? source
      else none
    let source ← source.skipLineEnd?
    some (directive, source)
  else none

end Directive

end EntitySchema.Yaml
