import EntitySchema.Yaml.Piece

/-!
A place in a YAML stream. A reader asks for the characters it is going to look at; the pieces that
hold them are fetched then, and a reader that asks for a character of a broken piece is told so.
-/

namespace EntitySchema.Yaml

structure Source where
  rest : List Char
  size : Nat
  index : Nat := 0
  line : Nat := 1
  column : Nat := 0
  fetched : Nat := 0
  pieces : List Nat
  /-- Whether the stream ends behind its last piece; otherwise it is broken there. -/
  isComplete : Bool
  /-- Whether a character has been asked for that cannot be fetched. -/
  isOverrun : Bool := false
  /-- The character that was next when a piece was fetched last. -/
  opening : Option Char := none

namespace Source

def ofText (text : Text) : Source :=
  let (pieces, isComplete) := piecesOf text
  let chars := pieces.flatten
  { rest := chars, size := chars.length, pieces := pieces.map List.length, isComplete }

def remaining (source : Source) : Nat := source.size - source.index

def peek? (source : Source) : Option Char := source.rest.head?

def peekAt? (source : Source) (distance : Nat) : Option Char := source.rest[distance]?

def isAtEnd (source : Source) : Bool := source.rest.isEmpty

def nextIs (source : Source) (char : Char) : Bool := source.peek? == some char

def fetchPieces (count : Nat) : (fetched : Nat) → (pieces : List Nat) → Nat × List Nat
  | fetched, [] => (fetched, [])
  | fetched, size :: pieces =>
    if count ≤ fetched then (fetched, size :: pieces)
    else fetchPieces count (fetched + size) pieces

/-- Asks for the next `count` characters. The end of a stream counts as one more of them. -/
def want (source : Source) (count : Nat) : Source :=
  if count ≤ source.fetched then source
  else
    let (fetched, pieces) := fetchPieces count source.fetched source.pieces
    { source with
      fetched := if count ≤ fetched then fetched else fetched + 1
      pieces := pieces
      isOverrun := source.isOverrun || (fetched < count && !source.isComplete)
      opening := source.peek? }

def opensWithMark (source : Source) : Bool :=
  source.opening.any fun char => char.toNat = 0xFEFF

end Source

def isBlank (char : Char) : Bool := char = ' ' || char = '\t'

def isBreak (char : Char) : Bool :=
  char = '\n' || char = '\r' || char.toNat = 0x85 || char.toNat = 0x2028 || char.toNat = 0x2029

def isGap : Option Char → Bool
  | none => true
  | some char => isBlank char || isBreak char

namespace Source

def skip (source : Source) : Source :=
  match source.rest with
  | [] => source
  | _ :: rest =>
    { source with
      rest := rest
      index := source.index + 1
      column := source.column + 1
      fetched := source.fetched - 1 }

def skipMany : (count : Nat) → Source → Source
  | 0, source => source
  | count + 1, source => skipMany count source.skip

def pass (ahead : Nat) : (count : Nat) → Source → Source
  | 0, source => source
  | count + 1, source => pass ahead count (source.skip.want ahead)

def skipLine (source : Source) : Source :=
  match source.rest with
  | '\r' :: '\n' :: rest =>
    { source with
      rest := rest
      index := source.index + 2
      line := source.line + 1
      column := 0
      fetched := source.fetched - 2 }
  | _ :: rest =>
    { source with
      rest := rest
      index := source.index + 1
      line := source.line + 1
      column := 0
      fetched := source.fetched - 1 }
  | [] => source

/-- How a line break reads: all but the Unicode separators are a line feed. -/
def breakChar (source : Source) : Char :=
  match source.peek? with
  | some char => if char.toNat = 0x2028 || char.toNat = 0x2029 then char else '\n'
  | none => '\n'

def isAtBreak (source : Source) : Bool := source.peek?.any isBreak

def isAtBlank (source : Source) : Bool := source.peek?.any isBlank

def skipBreak (source : Source) : Source :=
  if source.isAtBreak then (source.want 2).skipLine else source

def skipWhile (test : Char → Bool) (source : Source) : Source :=
  let source := source.want 1
  source.pass 1 (source.rest.takeWhile test).length

def skipToBreak (source : Source) : Source := source.skipWhile fun char => !isBreak char

def skipLineEnd? (source : Source) : Option Source :=
  let source := source.skipWhile isBlank
  let source := if source.nextIs '#' then source.skipToBreak else source
  if source.isAtEnd || source.isAtBreak then some source.skipBreak else none

def isAtMark (source : Source) (mark : Char) : Bool :=
  source.column = 0 && (source.rest.take 3 == [mark, mark, mark]) && isGap (source.peekAt? 3)

def isAtDocumentMark (source : Source) : Bool := source.isAtMark '-' || source.isAtMark '.'

end Source

end EntitySchema.Yaml
