import EntitySchema.Yaml.Source

/-!
The text of scalars in their five notations. Each reader starts at the first character of the
scalar and returns its text and what follows it; a scalar that is not closed, or that breaks the
rules of its notation, has none.
-/

namespace EntitySchema.Yaml

structure Gap where
  blanks : List Char := []
  breaks : List Char := []

namespace Gap

def isMultiline (gap : Gap) : Bool := !gap.breaks.isEmpty

/-- How a gap reads: a single line feed folds to a space, more of them lose the first. -/
def fold (gap : Gap) : List Char :=
  match gap.breaks.reverse with
  | [] => gap.blanks.reverse
  | '\n' :: [] => [' ']
  | '\n' :: further => further
  | breaks => breaks

end Gap

namespace Scalar

def readGap? (indent : Nat) : (fuel : Nat) → Gap → Source → Option (Gap × Source)
  | 0, _, _ => none
  | fuel + 1, gap, source =>
    match source.peek? with
    | none => some (gap, source)
    | some char =>
      if isBlank char then
        let further := (source.skip).want 1
        if gap.isMultiline then
          if source.column < indent && char = '\t' then none
          else readGap? indent fuel gap further
        else readGap? indent fuel { gap with blanks := char :: gap.blanks } further
      else if isBreak char then
        let gap := { gap with breaks := source.breakChar :: gap.breaks }
        readGap? indent fuel gap (source.skipBreak.want 1)
      else some (gap, source)

def isFlowIndicator (char : Char) : Bool :=
  char = ',' || char = '?' || char = '[' || char = ']' || char = Char.ofNat 0x7B ||
    char = Char.ofNat 0x7D

def wordSize (inFlow : Bool) : List Char → Nat
  | [] => 0
  | char :: rest =>
    if isGap (some char) then 0
    else if char = ':' && isGap rest.head? then 0
    else if inFlow && isFlowIndicator char then 0
    else wordSize inFlow rest + 1

/--
A plain scalar from its first word on; `done` is its text so far in reverse, `gap` what came
before the next word. The result tells whether the scalar was left on a later line.
-/
def readPlainFrom? (inFlow : Bool) (indent : Nat) :
    (fuel : Nat) → (done : List Char) → (gap : Gap) → Source →
      Option (List Char × Bool × Source)
  | 0, _, _, _ => none
  | fuel + 1, done, gap, source =>
    let source := source.want 4
    let isOver := source.isAtDocumentMark || source.nextIs '#'
    let size := if isOver then 0 else wordSize inFlow source.rest
    if size = 0 then some (done.reverse, gap.isMultiline, source)
    else
      let done := (source.rest.take size).reverse ++ gap.fold.reverse ++ done
      let source := source.pass 2 size
      if source.isAtBlank || source.isAtBreak then
        match readGap? indent (source.remaining + 1) {} source with
        | none => none
        | some (gap, source) =>
          if !inFlow && source.column < indent then
            some (done.reverse, gap.isMultiline, source)
          else readPlainFrom? inFlow indent fuel done gap source
      else some (done.reverse, false, source)

def readPlain? (inFlow : Bool) (indent : Nat) (source : Source) :
    Option (List Char × Bool × Source) :=
  readPlainFrom? inFlow indent (source.remaining + 1) [] {} source

def escaped? (char : Char) : Option Char :=
  match char with
  | '0' => some (Char.ofNat 0x00)
  | 'a' => some (Char.ofNat 0x07)
  | 'b' => some (Char.ofNat 0x08)
  | 't' => some '\t'
  | '\t' => some '\t'
  | 'n' => some '\n'
  | 'v' => some (Char.ofNat 0x0B)
  | 'f' => some (Char.ofNat 0x0C)
  | 'r' => some '\r'
  | 'e' => some (Char.ofNat 0x1B)
  | ' ' => some ' '
  | '"' => some '"'
  | '\'' => some '\''
  | '\\' => some '\\'
  | 'N' => some (Char.ofNat 0x85)
  | '_' => some (Char.ofNat 0xA0)
  | 'L' => some (Char.ofNat 0x2028)
  | 'P' => some (Char.ofNat 0x2029)
  | _ => none

def escapeWidth? (char : Char) : Option Nat :=
  match char with
  | 'x' => some 2
  | 'u' => some 4
  | 'U' => some 8
  | _ => none

def hexCharValue? (char : Char) : Option Nat :=
  if char.toNat < 0x80 then Text.hexValue? char.toNat.toUInt8 else none

def hexEscape? (width : Nat) (chars : List Char) : Option Char := do
  let digits ← (chars.take width).mapM hexCharValue?
  let code := digits.foldl (fun code digit => code * 16 + digit) 0
  if digits.length = width ∧ code.isValidChar then some (Char.ofNat code) else none

inductive RunEnd where
  | gap
  | quote
  | escapedBreak

def readRun? (single : Bool) : (fuel : Nat) → (done : List Char) → Source →
    Option (List Char × RunEnd × Source)
  | 0, _, _ => none
  | fuel + 1, done, source =>
    match source.rest with
    | [] => some (done, .gap, source)
    | char :: rest =>
      if isGap (some char) then some (done, .gap, source)
      else if single then
        if char = '\'' then
          if rest.head? = some '\'' then
            readRun? single fuel ('\'' :: done) (source.skip.skip.want 2)
          else some (done, .quote, source)
        else readRun? single fuel (char :: done) (source.skip.want 2)
      else if char = '"' then some (done, .quote, source)
      else if char = '\\' then
        match rest with
        | [] => none
        | next :: digits =>
          if isBreak next then some (done, .escapedBreak, ((source.want 3).skip).skipLine)
          else
            let behind := source.skip.skip
            match escaped? next, escapeWidth? next with
            | some char, _ => readRun? single fuel (char :: done) (behind.want 2)
            | none, some width =>
              match hexEscape? width digits with
              | none => none
              | some char =>
                readRun? single fuel (char :: done) (((behind.want width).skipMany width).want 2)
            | none, none => none
      else readRun? single fuel (char :: done) (source.skip.want 2)

def readGapAfterEscape? : (fuel : Nat) → (breaks : List Char) → Source →
    Option (List Char × Source)
  | 0, _, _ => none
  | fuel + 1, breaks, source =>
    match source.peek? with
    | none => some (breaks, source)
    | some char =>
      if isBlank char then readGapAfterEscape? fuel breaks (source.skip.want 1)
      else if isBreak char then
        readGapAfterEscape? fuel (source.breakChar :: breaks) (source.skipBreak.want 1)
      else some (breaks, source)

def readQuotedFrom? (single : Bool) : (fuel : Nat) → (done : List Char) → Source →
    Option (List Char × Source)
  | 0, _, _ => none
  | fuel + 1, done, source =>
    let source := source.want 4
    if source.isAtDocumentMark || source.isAtEnd then none
    else
      match readRun? single (source.remaining + 1) done source with
      | none => none
      | some (done, .quote, source) => some (done.reverse, source.skip)
      | some (done, .gap, source) =>
        match readGap? 0 (source.remaining + 1) {} source with
        | none => none
        | some (gap, source) => readQuotedFrom? single fuel (gap.fold.reverse ++ done) source
      | some (done, .escapedBreak, source) =>
        match readGapAfterEscape? (source.remaining + 1) [] (source.want 1) with
        | none => none
        | some (breaks, source) => readQuotedFrom? single fuel (breaks ++ done) source

def readQuoted? (single : Bool) (source : Source) : Option (List Char × Source) :=
  readQuotedFrom? single (source.remaining + 2) [] source.skip

inductive Chomping where
  | clip
  | strip
  | keep
  deriving DecidableEq

def chompingOf? (char : Option Char) : Option Chomping :=
  match char with
  | some '+' => some .keep
  | some '-' => some .strip
  | _ => none

def readIncrement? (source : Source) : Option (Nat × Source) :=
  match source.peek? with
  | some char =>
    if char.isDigit then
      if char = '0' then none else some (char.toNat - 0x30, source.skip.want 1)
    else some (0, source)
  | none => some (0, source)

def readHeader? (source : Source) : Option (Chomping × Nat × Source) :=
  match chompingOf? source.peek? with
  | some chomping => (readIncrement? (source.skip.want 1)).map fun (increment, source) =>
    (chomping, increment, source)
  | none =>
    match readIncrement? source with
    | none => none
    | some (increment, source) =>
      match increment, chompingOf? source.peek? with
      | 0, _ => some (.clip, 0, source)
      | _, some chomping => some (chomping, increment, source.skip)
      | _, none => some (.clip, increment, source)

/--
Skips indentation and empty lines before a content line. The indentation `indent` is zero while
it is not known; the result holds the line breaks, the last one first, the greatest column seen, and
the rest.
-/
def readEmptyLines? (indent : Nat) : (fuel : Nat) → (breaks : List Char) → (widest : Nat) →
    Source → Option (List Char × Nat × Source)
  | 0, _, _, _ => none
  | fuel + 1, breaks, widest, source =>
    let source := source.want 1
    let spaces := (source.rest.takeWhile fun char => char = ' ').length
    let taken := if indent = 0 then spaces else min spaces (indent - source.column)
    let source := source.pass 1 taken
    let widest := max widest source.column
    if (indent = 0 || source.column < indent) && source.nextIs '\t' then none
    else if source.isAtBreak then
      readEmptyLines? indent fuel (source.breakChar :: breaks) widest source.skipBreak
    else some (breaks, widest, source)

structure BlockText where
  done : List Char := []
  lastBreak : List Char := []
  emptyBreaks : List Char := []
  afterBlank : Bool := false

/-- Adds a content line; in a folded scalar two lines that start with text are joined. -/
def BlockText.add (text : BlockText) (literal : Bool) (line : List Char) : BlockText :=
  let startsBlank := line.head?.any isBlank
  let folds := !literal && !text.afterBlank && !startsBlank && text.lastBreak.head? == some '\n'
  let joint := if folds then (if text.emptyBreaks.isEmpty then [' '] else []) else text.lastBreak
  { done := line.reverse ++ (joint ++ text.emptyBreaks).reverse ++ text.done
    lastBreak := []
    emptyBreaks := []
    afterBlank := startsBlank }

def readLines? (literal : Bool) (indent : Nat) : (fuel : Nat) → BlockText → Source →
    Option (BlockText × Source)
  | 0, _, _ => none
  | fuel + 1, text, source =>
    if source.column = indent && !source.isAtEnd then
      let line := source.rest.takeWhile fun char => !isBreak char
      let text := text.add literal line
      let source := (source.pass 1 line.length).want 2
      let lastBreak := if source.isAtBreak then [source.breakChar] else []
      match readEmptyLines? indent (source.remaining + 1) [] 0 source.skipBreak with
      | none => none
      | some (breaks, _, source) =>
        readLines? literal indent fuel
          { text with lastBreak := lastBreak, emptyBreaks := breaks.reverse } source
    else some (text, source)

def readBlock? (literal : Bool) (parent : Int) (source : Source) :
    Option (List Char × Source) := do
  let (chomping, increment, source) ← readHeader? (source.skip.want 1)
  let source ← source.skipLineEnd?
  let fixed := if increment = 0 then 0 else (max parent 0).toNat + increment
  let (breaks, widest, source) ←
    readEmptyLines? fixed (source.remaining + 1) [] 0 source
  let indent := if fixed = 0 then max (max widest (parent + 1).toNat) 1 else fixed
  let (text, source) ←
    readLines? literal indent (source.remaining + 1) { emptyBreaks := breaks.reverse } source
  let tail := match chomping with
    | .strip => []
    | .clip => text.lastBreak
    | .keep => text.lastBreak ++ text.emptyBreaks
  some (text.done.reverse ++ tail, source)

end Scalar

end EntitySchema.Yaml
