import EntitySchema.Yaml.Comment
import EntitySchema.Yaml.Token

/-!
Splitting a YAML stream into tokens. Whether a scalar or a flow collection is a key shows only at
the colon behind it, so each nesting level remembers where its last candidate started, and the
tokens that announce a key are put in front of the candidate when the colon comes.
-/

namespace EntitySchema.Yaml

structure KeyCandidate where
  isPossible : Bool
  /-- Whether the block structure leaves no other reading. -/
  isRequired : Bool := false
  /-- Whether its token is held back until it is known whether it is a key. -/
  isAwaited : Bool := false
  number : Nat := 0
  index : Nat := 0
  line : Nat := 0
  column : Nat := 0

/-- Whether a candidate can still be a key: on the same line and not too far back. -/
def KeyCandidate.isFresh (candidate : KeyCandidate) (source : Source) : Bool :=
  candidate.line = source.line && source.index ≤ candidate.index + 1024

structure Scanner where
  source : Source
  indent : Int := -1
  indents : List Int := []
  candidate : KeyCandidate := { isPossible := false }
  enclosing : List KeyCandidate := []
  isKeyAllowed : Bool := true
  tokens : List Token := []
  count : Nat := 0
  delivered : Nat := 0

namespace Scanner

def isInFlow (scanner : Scanner) : Bool := !scanner.enclosing.isEmpty

def greatestDepth : Nat := 10000

def push (scanner : Scanner) (content : TokenContent) (line : Nat) : Scanner :=
  { scanner with tokens := ⟨content, line⟩ :: scanner.tokens, count := scanner.count + 1 }

/--
Puts a token in front of all but the first `number` tokens. If more of them have been handed out, it
comes last.
-/
def insert (scanner : Scanner) (number : Nat) (content : TokenContent) (line : Nat) : Scanner :=
  let newer := if number < scanner.delivered then 0 else scanner.count - number
  { scanner with
    tokens := scanner.tokens.take newer ++ ⟨content, line⟩ :: scanner.tokens.drop newer
    count := scanner.count + 1 }

def forgetCandidate (scanner : Scanner) : Scanner :=
  { scanner with candidate := { scanner.candidate with isPossible := false } }

def dropCandidate? (scanner : Scanner) : Option Scanner :=
  if scanner.candidate.isPossible && scanner.candidate.isRequired then none
  else some scanner.forgetCandidate

def saveCandidate? (scanner : Scanner) : Option Scanner :=
  if scanner.isKeyAllowed then
    let source := scanner.source
    let candidate : KeyCandidate :=
      { isPossible := true
        isRequired := !scanner.isInFlow && scanner.indent = source.column
        isAwaited := true
        number := scanner.count
        index := source.index
        line := source.line
        column := source.column }
    scanner.dropCandidate?.map fun scanner => { scanner with candidate := candidate }
  else some scanner

def openBlock? (scanner : Scanner) (column number : Nat) (content : TokenContent) (line : Nat) :
    Option Scanner :=
  if !scanner.isInFlow && scanner.indent < column then
    if greatestDepth ≤ scanner.indents.length then none
    else
      some ({ scanner with
        indent := column
        indents := scanner.indent :: scanner.indents }.insert number content line)
  else some scanner

def openBlockHere? (scanner : Scanner) (content : TokenContent) : Option Scanner :=
  scanner.openBlock? scanner.source.column scanner.count content scanner.source.line

def closeBlocks (column : Int) : List Int → Scanner → Scanner
  | [], scanner => scanner
  | outer :: indents, scanner =>
    if column < scanner.indent then
      closeBlocks column indents
        ({ scanner with indent := outer, indents := indents }.push .blockEnd scanner.source.line)
    else scanner

def unwind (scanner : Scanner) (column : Int) : Scanner :=
  if scanner.isInFlow then scanner else closeBlocks column scanner.indents scanner

def take (scanner : Scanner) (content : TokenContent) (size : Nat) : Scanner :=
  let scanner := scanner.push content scanner.source.line
  { scanner with source := scanner.source.skipMany size }

def withKeyAllowed (scanner : Scanner) (isAllowed : Bool) : Scanner :=
  { scanner with isKeyAllowed := isAllowed }

def scanStreamEnd? (scanner : Scanner) : Option Scanner :=
  let source := scanner.source
  let source :=
    if source.column = 0 then source else { source with line := source.line + 1, column := 0 }
  let scanner := { scanner with source := source }
  ((scanner.unwind (-1)).dropCandidate?).map fun scanner =>
    (scanner.withKeyAllowed false).push .streamEnd source.line

def scanDocumentMark? (scanner : Scanner) (content : TokenContent) : Option Scanner :=
  ((scanner.unwind (-1)).dropCandidate?).map fun scanner =>
    (scanner.withKeyAllowed false).take content 3

def scanDirective? (scanner : Scanner) : Option Scanner :=
  ((scanner.unwind (-1)).dropCandidate?).bind fun scanner =>
    (Directive.read? scanner.source).map fun (directive, rest) =>
      { (scanner.withKeyAllowed false).push (.directive directive) scanner.source.line with
        source := rest }

def scanFlowStart? (scanner : Scanner) (content : TokenContent) : Option Scanner :=
  if greatestDepth ≤ scanner.enclosing.length then none
  else
    scanner.saveCandidate?.map fun scanner =>
      ({ scanner with
        candidate := { isPossible := false, number := scanner.count }
        enclosing := scanner.candidate :: scanner.enclosing }.withKeyAllowed true).take content 1

def closeLevel (scanner : Scanner) : Scanner :=
  match scanner.enclosing with
  | [] => scanner
  | outer :: enclosing =>
    let isAwaited := outer.isAwaited && outer.number ≠ scanner.candidate.number
    { scanner with candidate := { outer with isAwaited := isAwaited }, enclosing := enclosing }

def scanFlowEnd? (scanner : Scanner) (content : TokenContent) : Option Scanner :=
  scanner.dropCandidate?.map fun scanner =>
    (scanner.closeLevel.withKeyAllowed false).take content 1

def scanFlowEntry? (scanner : Scanner) : Option Scanner :=
  scanner.dropCandidate?.map fun scanner => (scanner.withKeyAllowed true).take .flowEntry 1

def scanBlockEntry? (scanner : Scanner) : Option Scanner :=
  if !scanner.isInFlow && !scanner.isKeyAllowed then none
  else do
    let scanner ← scanner.openBlockHere? .blockSequenceStart
    let scanner ← scanner.dropCandidate?
    some ((scanner.withKeyAllowed true).take .blockEntry 1)

def scanKey? (scanner : Scanner) : Option Scanner :=
  if !scanner.isInFlow && !scanner.isKeyAllowed then none
  else do
    let scanner ← scanner.openBlockHere? .blockMappingStart
    let scanner ← scanner.dropCandidate?
    some ((scanner.withKeyAllowed !scanner.isInFlow).take .key 1)

def confirmKey? (scanner : Scanner) : Option Scanner :=
  let candidate := scanner.candidate
  let scanner := scanner.insert candidate.number .key candidate.line
  (scanner.openBlock? candidate.column candidate.number .blockMappingStart candidate.line).map
    fun scanner => (scanner.forgetCandidate.withKeyAllowed false).take .value 1

def scanBareValue? (scanner : Scanner) : Option Scanner :=
  if !scanner.isInFlow && !scanner.isKeyAllowed then none
  else
    (scanner.openBlockHere? .blockMappingStart).map fun scanner =>
      (scanner.withKeyAllowed !scanner.isInFlow).take .value 1

def scanValue? (scanner : Scanner) : Option Scanner :=
  if scanner.candidate.isPossible then
    if scanner.candidate.isFresh scanner.source then scanner.confirmKey?
    else if scanner.candidate.isRequired then none
    else scanner.forgetCandidate.scanBareValue?
  else scanner.scanBareValue?

def endsAnchor (next : Option Char) : Bool :=
  isGap next || next.any fun char =>
    char = '?' || char = ':' || char = ',' || char = ']' || char = Char.ofNat 0x7D ||
      char = '%' || char = '@' || char.toNat = 0x60

def scanAnchor? (scanner : Scanner) (content : Text → TokenContent) : Option Scanner :=
  scanner.saveCandidate?.bind fun scanner =>
    let (name, rest) := readWord scanner.source.skip
    if name.isEmpty || !endsAnchor rest.peek? then none
    else
      some { (scanner.withKeyAllowed false).push (content (Text.ofChars name))
        scanner.source.line with source := rest }

def scanTag? (scanner : Scanner) : Option Scanner :=
  scanner.saveCandidate?.bind fun scanner =>
    (Tag.read? scanner.source).map fun (handle, suffix, rest) =>
      { (scanner.withKeyAllowed false).push (.tag handle suffix) scanner.source.line with
        source := rest }

def takeScalar (scanner : Scanner) (text : List Char) (style : ScalarStyle) (rest : Source) :
    Scanner :=
  { scanner.push (.scalar (Text.ofChars text) style) scanner.source.line with source := rest }

def scanBlockScalar? (scanner : Scanner) (literal : Bool) : Option Scanner :=
  match scanner.dropCandidate? with
  | none => none
  | some scanner =>
    match Scalar.readBlock? literal scanner.indent scanner.source with
    | none => none
    | some (text, rest) =>
      some ((scanner.withKeyAllowed true).takeScalar text
        (if literal then .literal else .folded) rest)

def scanQuotedScalar? (scanner : Scanner) (single : Bool) : Option Scanner :=
  match scanner.saveCandidate? with
  | none => none
  | some scanner =>
    match Scalar.readQuoted? single scanner.source with
    | none => none
    | some (text, rest) =>
      some ((scanner.withKeyAllowed false).takeScalar text
        (if single then .singleQuoted else .doubleQuoted) rest)

def scanPlainScalar? (scanner : Scanner) : Option Scanner :=
  match scanner.saveCandidate? with
  | none => none
  | some scanner =>
    match Scalar.readPlain? scanner.isInFlow (scanner.indent + 1).toNat scanner.source with
    | none => none
    | some (text, leftLine, rest) =>
      some ((scanner.withKeyAllowed leftLine).takeScalar text .plain rest)

def skipToToken : (fuel : Nat) → Scanner → Scanner
  | 0, scanner => scanner
  | fuel + 1, scanner =>
    let source := scanner.source.want 1
    let source := if source.column = 0 && source.opensWithMark then source.skip else source
    let source := source.skipWhile fun char =>
      char = ' ' || ((scanner.isInFlow || !scanner.isKeyAllowed) && char = '\t')
    let source :=
      if source.nextIs '#' then source.skipComments (source.remaining + 1) else source
    if source.isAtBreak then
      let scanner := { scanner with source := source.skipBreak }
      skipToToken fuel (if scanner.isInFlow then scanner else scanner.withKeyAllowed true)
    else { scanner with source := source }

def isIndicator (char : Char) : Bool :=
  "-?:,[]#&*!|>'\"%@".toList.contains char || char.toNat = 0x60 || char.toNat = 0x7B ||
    char.toNat = 0x7D

def startsPlain (inFlow : Bool) (char : Char) (next : Option Char) : Bool :=
  (!isIndicator char && !isGap (some char)) || (char = '-' && !next.any isBlank) ||
    (!inFlow && (char = '?' || char = ':') && !isGap next)

def scanContent? (scanner : Scanner) (char : Char) (next : Option Char) : Option Scanner :=
  let inFlow := scanner.isInFlow
  if char = '[' then scanner.scanFlowStart? .flowSequenceStart
  else if char.toNat = 0x7B then scanner.scanFlowStart? .flowMappingStart
  else if char = ']' then scanner.scanFlowEnd? .flowSequenceEnd
  else if char.toNat = 0x7D then scanner.scanFlowEnd? .flowMappingEnd
  else if char = ',' then scanner.scanFlowEntry?
  else if char = '-' && isGap next then scanner.scanBlockEntry?
  else if char = '?' && (inFlow || isGap next) then scanner.scanKey?
  else if char = ':' && (inFlow || isGap next) then scanner.scanValue?
  else if char = '*' then scanner.scanAnchor? .alias
  else if char = '&' then scanner.scanAnchor? .anchor
  else if char = '!' then scanner.scanTag?
  else if char = '|' && !inFlow then scanner.scanBlockScalar? true
  else if char = '>' && !inFlow then scanner.scanBlockScalar? false
  else if char = '\'' then scanner.scanQuotedScalar? true
  else if char = '"' then scanner.scanQuotedScalar? false
  else if startsPlain inFlow char next then scanner.scanPlainScalar?
  else none

def mayBeCommented (scanner : Scanner) : Bool :=
  match scanner.tokens with
  | ⟨.blockEntry, _⟩ :: _ => false
  | ⟨.scalar _ .literal, _⟩ :: _ => false
  | ⟨.scalar _ .folded, _⟩ :: _ => false
  | ⟨.scalar _ .plain, _⟩ :: _ => !scanner.isKeyAllowed
  | _ => true

def step? (scanner : Scanner) : Option Scanner :=
  let scanner := scanner.skipToToken (scanner.source.remaining + 1)
  let scanner := scanner.unwind scanner.source.column
  let source := scanner.source.want 4
  let scanner := { scanner with source := source }
  match source.rest with
  | [] => scanner.scanStreamEnd?
  | char :: rest =>
    if source.column = 0 && char = '%' then scanner.scanDirective?
    else if source.isAtMark '-' then scanner.scanDocumentMark? .documentStart
    else if source.isAtMark '.' then scanner.scanDocumentMark? .documentEnd
    else
      (scanner.scanContent? char rest.head?).map fun scanner =>
        if scanner.mayBeCommented then { scanner with source := scanner.source.skipLineComment }
        else scanner

/-- How many tokens behind a token must be known before it is handed out. -/
def lookahead : Nat := 2

/--
The candidate whose token is the next one to be handed out, if it is held back. The candidates of
inner levels do not come before those of outer ones.
-/
def awaited? (scanner : Scanner) : Option KeyCandidate :=
  let candidates := (scanner.candidate :: scanner.enclosing).dropWhile fun candidate =>
    scanner.delivered < candidate.number
  (candidates.takeWhile fun candidate => candidate.number = scanner.delivered).find?
    fun candidate => candidate.isPossible && candidate.isAwaited

/--
Hands out tokens as long as enough is known about them. The result tells whether the stream is still
readable: a required key must not have grown stale.
-/
def deliver : (fuel : Nat) → Scanner → Scanner × Bool
  | 0, scanner => (scanner, true)
  | fuel + 1, scanner =>
    let next := { scanner with delivered := scanner.delivered + 1 }
    if scanner.count ≤ scanner.delivered + lookahead then (scanner, true)
    else
      match scanner.awaited? with
      | none => deliver fuel next
      | some candidate =>
        if candidate.isFresh scanner.source then (scanner, true)
        else if candidate.isRequired then (scanner, false)
        else deliver fuel next

def deliveredTokens (scanner : Scanner) : List Token :=
  (scanner.tokens.drop (scanner.count - scanner.delivered)).reverse

/--
The tokens of the stream in order. They end with the end of the stream, or where the stream becomes
unreadable, and there without the tokens that still wait for those behind them.
-/
def run : (fuel : Nat) → Scanner → List Token
  | 0, scanner => scanner.deliveredTokens
  | fuel + 1, scanner =>
    match scanner.step? with
    | none => scanner.deliveredTokens
    | some next =>
      if next.source.isOverrun then scanner.deliveredTokens
      else
        match next.tokens with
        | ⟨.streamEnd, _⟩ :: _ => next.tokens.reverse
        | _ =>
          match next.deliver next.count with
          | (next, true) => run fuel next
          | (next, false) => next.deliveredTokens

theorem run_succ (fuel : Nat) (scanner : Scanner) :
    run (fuel + 1) scanner =
      match scanner.step? with
      | none => scanner.deliveredTokens
      | some next =>
        if next.source.isOverrun then scanner.deliveredTokens
        else
          match next.tokens with
          | ⟨.streamEnd, _⟩ :: _ => next.tokens.reverse
          | _ =>
            match next.deliver next.count with
            | (next, true) => run fuel next
            | (next, false) => next.deliveredTokens := by
  rfl

end Scanner

def tokensOf (text : Text) : List Token :=
  let source := Source.ofText text
  Scanner.run (source.size + 2) { source := source }

end EntitySchema.Yaml
