import EntitySchema.Proofs.Json.Round

/-!
The tokens that JSON is made of. A bracket changes the level, a comma allows a key, a string may be
one, and a colon behind a string announces it.
-/

namespace EntitySchema

open Yaml

namespace Json

/-- A key that the scanner still takes for one at its colon: on the same line, and not too far. -/
def KeyFits (key : List Sign) (beforeColon : List Blank) : Prop :=
  (∀ sign ∈ beforeColon, sign.breaksLine = false) ∧
    (Sign.quoted key).length + beforeColon.length ≤ 1024

theorem clear_of_stops {rest : List Char} (stops : Stops rest) (signs : List Blank) :
    Clear (blanks signs ++ rest) := by
  unfold Clear
  induction signs with
  | nil =>
      cases rest with
      | nil => simp [blanks]
      | cons char rest =>
          obtain ⟨noGap, noComment⟩ := stops char rfl
          have noBlank := (Bool.or_eq_false_iff.mp noGap).1
          simpa [blanks, List.dropWhile_cons_of_neg, noBlank] using noComment
  | cons sign signs ih =>
      rw [blanks, List.map_cons, List.cons_append]
      cases blank : Yaml.isBlank sign.char with
      | true => rwa [List.dropWhile_cons_of_pos blank]
      | false =>
          rw [List.dropWhile_cons_of_neg (by simp [blank])]
          cases sign <;> simp [Blank.char]

theorem Opens.stops {char : Char} {rest : List Char} (opens : Opens char rest) :
    Stops (char :: rest) := by
  rintro char ⟨⟩
  exact ⟨opens.noGap, opens.noComment⟩

end Json

theorem Yaml.Scalar.EndsItem.stops {next : Char} (ends : Yaml.Scalar.EndsItem next)
    (rest : List Char) : Json.Stops (next :: rest) := by
  rintro char ⟨⟩
  exact ⟨ends.isGap, ends.facts.2.2.2.2⟩

namespace Yaml.Scanner

open Source Json

variable {scanner : Scanner} {signs : List Blank} {rest : List Char}

def here (scanner : Scanner) : KeyCandidate :=
  { isPossible := true
    isAwaited := true
    number := scanner.count
    index := scanner.source.index
    line := scanner.source.line
    column := scanner.source.column }

theorem Ready.dropCandidate? (ready : scanner.Ready) :
    scanner.dropCandidate? = some scanner.forgetCandidate := by
  rw [Scanner.dropCandidate?, ready.optional scanner.candidate (by simp), Bool.and_false,
    if_neg (by simp)]

theorem Ready.saveCandidate? (ready : scanner.Ready) :
    ∃ candidate, scanner.saveCandidate? = some { scanner with candidate } ∧
      candidate.isRequired = false ∧ (scanner.isKeyAllowed = true → candidate = scanner.here) := by
  rw [Scanner.saveCandidate?]
  split
  next allowed =>
    refine ⟨scanner.here, ?_, rfl, fun _ => rfl⟩
    have optional : (!scanner.isInFlow && decide (scanner.indent = scanner.source.column)) =
        false := by
      rw [ready.indent, decide_eq_false (by omega), Bool.and_false]
    rw [ready.dropCandidate?]
    dsimp only
    rw [optional]
    rfl
  next notAllowed =>
    exact ⟨scanner.candidate, rfl, ready.optional _ (by simp),
      fun allowed => absurd allowed notAllowed⟩

theorem Ready.adds (ready : scanner.Ready) {next : Scanner} {chars : List Char}
    {content : TokenContent} (moves : scanner.source.Moves chars next.source)
    (contents : next.contents = content :: scanner.contents)
    (same : (next.indent, next.indents, next.delivered, next.count) =
      (scanner.indent, scanner.indents, scanner.delivered, scanner.count + 1))
    (optional : ∀ candidate ∈ next.candidate :: next.enclosing, candidate.isRequired = false) :
    scanner.Adds chars content next := by
  simp only [Prod.mk.injEq] at same
  obtain ⟨indent, indents, delivered, count⟩ := same
  have bound := ready.lookahead
  exact ⟨moves, contents, moves.clean ready.clean, indent.trans ready.indent,
    indents.trans ready.indents, optional, by omega⟩

theorem Ready.forget_optional (ready : scanner.Ready) :
    ∀ candidate ∈ scanner.forgetCandidate.candidate :: scanner.forgetCandidate.enclosing,
      candidate.isRequired = false := by
  have optional := ready.optional
  rw [List.forall_mem_cons] at optional
  exact List.forall_mem_cons.mpr optional

theorem scanFlowStart?_ready (ready : scanner.Ready) {char : Char}
    (ahead : scanner.source.rest = char :: rest)
    (shallow : scanner.enclosing.length < greatestDepth) (content : TokenContent) :
    ∃ next outer, scanner.scanFlowStart? content = some next ∧ scanner.Adds [char] content next ∧
      next.enclosing = outer :: scanner.enclosing ∧ next.isKeyAllowed = true := by
  obtain ⟨candidate, saved, optional, _⟩ := ready.saveCandidate?
  have outer := (List.forall_mem_cons.mp ready.optional).2
  have scanned : scanner.scanFlowStart? content =
      some (({ scanner with
        candidate := { isPossible := false, number := scanner.count }
        enclosing := candidate :: scanner.enclosing }.withKeyAllowed true).take content 1) := by
    rw [scanFlowStart?, if_neg (Nat.not_le.mpr shallow), saved]
    rfl
  refine ⟨_, candidate, scanned, ready.adds (moves_skip ahead) rfl rfl ?_, rfl, rfl⟩
  exact List.forall_mem_cons.mpr ⟨rfl, List.forall_mem_cons.mpr ⟨optional, outer⟩⟩

theorem scanFlowEnd?_ready (ready : scanner.Ready) {char : Char}
    (ahead : scanner.source.rest = char :: rest) {outer : KeyCandidate}
    {enclosing : List KeyCandidate} (inside : scanner.enclosing = outer :: enclosing)
    (content : TokenContent) :
    ∃ next, scanner.scanFlowEnd? content = some next ∧ scanner.Adds [char] content next ∧
      next.enclosing = enclosing ∧ next.isKeyAllowed = false := by
  have optional := (List.forall_mem_cons.mp ready.optional).2
  rw [inside, List.forall_mem_cons] at optional
  have scanned : scanner.scanFlowEnd? content =
      some ((scanner.forgetCandidate.closeLevel.withKeyAllowed false).take content 1) := by
    rw [scanFlowEnd?, ready.dropCandidate?]
    rfl
  have closed : scanner.forgetCandidate.closeLevel = { scanner with
      candidate := { outer with
        isAwaited := outer.isAwaited && outer.number ≠ scanner.candidate.number }
      enclosing } := by
    simp only [closeLevel, forgetCandidate, inside]
  rw [closed] at scanned
  refine ⟨_, scanned, ready.adds (moves_skip ahead) rfl rfl ?_, rfl, rfl⟩
  exact List.forall_mem_cons.mpr optional

theorem scanFlowEntry?_ready (ready : scanner.Ready) {char : Char}
    (ahead : scanner.source.rest = char :: rest) :
    ∃ next, scanner.scanFlowEntry? = some next ∧ scanner.Adds [char] .flowEntry next ∧
      next.enclosing = scanner.enclosing ∧ next.isKeyAllowed = true := by
  have scanned : scanner.scanFlowEntry? =
      some ((scanner.forgetCandidate.withKeyAllowed true).take .flowEntry 1) := by
    rw [ scanFlowEntry?, ready.dropCandidate?]
    rfl
  exact ⟨_, scanned, ready.adds (moves_skip ahead) rfl rfl ready.forget_optional, rfl, rfl⟩

theorem scanQuotedScalar?_ready (ready : scanner.Ready) {signs : List Sign}
    (fits : ∀ sign ∈ signs, sign.FitsYaml)
    (ahead : scanner.source.rest = Sign.quoted signs ++ rest) :
    ∃ next, scanner.scanQuotedScalar? false = some next ∧
      scanner.Adds (Sign.quoted signs) (.scalar (Sign.textOf signs) .doubleQuoted) next ∧
      next.enclosing = scanner.enclosing ∧
      (scanner.isKeyAllowed = true → next.candidate = scanner.here ∧
        next.count = scanner.count + 1) := by
  obtain ⟨candidate, saved, optional, isHere⟩ := ready.saveCandidate?
  obtain ⟨target, moves, read⟩ := Scalar.readQuoted?_signs fits ahead ready.clean
  have outer := (List.forall_mem_cons.mp ready.optional).2
  have scanned : scanner.scanQuotedScalar? false =
      some (({ scanner with candidate }.withKeyAllowed false).takeScalar (signs.map Sign.char)
        .doubleQuoted target) := by
    rw [scanQuotedScalar?, saved]
    dsimp only
    rw [read]
    rfl
  refine ⟨_, scanned, ready.adds moves ?_ rfl ?_, rfl, fun allowed => ⟨isHere allowed, rfl⟩⟩
  · rw [Sign.textOf_of_fits fits]
    rfl
  · exact List.forall_mem_cons.mpr ⟨optional, outer⟩

theorem scanPlainScalar?_ready (ready : scanner.Ready) (inFlow : scanner.isInFlow = true)
    {word gaps : List Char} (plain : Scalar.IsPlainWord word)
    (isGaps : ∀ char ∈ gaps, isGap (some char) = true) {next : Char}
    (ends : Scalar.EndsItem next)
    (ahead : scanner.source.rest = word ++ (gaps ++ next :: rest)) :
    ∃ final, scanner.scanPlainScalar? = some final ∧
      scanner.Adds (word ++ gaps) (.scalar (Text.ofChars word) .plain) final ∧
      final.enclosing = scanner.enclosing := by
  obtain ⟨candidate, saved, optional, _⟩ := ready.saveCandidate?
  obtain ⟨leftLine, target, moves, read⟩ :=
    Scalar.readPlain?_word plain isGaps ends ahead ready.clean
  have outer := (List.forall_mem_cons.mp ready.optional).2
  have flow : ({ scanner with candidate }).isInFlow = true := inFlow
  have scanned : scanner.scanPlainScalar? =
      some (({ scanner with candidate }.withKeyAllowed leftLine).takeScalar word .plain
        target) := by
    have column : (scanner.indent + 1).toNat = 0 := by rw [ready.indent]; rfl
    rw [scanPlainScalar?, saved]
    dsimp only
    rw [flow, column, read]
  refine ⟨_, scanned, ready.adds moves rfl rfl ?_, rfl⟩
  exact List.forall_mem_cons.mpr ⟨optional, outer⟩

theorem openBlock?_inFlow (inFlow : scanner.isInFlow = true) (column number : Nat)
    (content : TokenContent) (line : Nat) :
    scanner.openBlock? column number content line = some scanner := by
  rw [openBlock?, inFlow, Bool.not_true, Bool.false_and, if_neg (by simp)]

theorem confirmKey?_inFlow {grown : Scanner}
    (inserted : scanner.insert scanner.candidate.number .key scanner.candidate.line = grown)
    (inFlow : grown.isInFlow = true) :
    scanner.confirmKey? = some ((grown.forgetCandidate.withKeyAllowed false).take .value 1) := by
  rw [confirmKey?, inserted, openBlock?_inFlow inFlow]
  rfl

theorem scanValue?_ready (ready : scanner.Ready) (inFlow : scanner.isInFlow = true)
    (possible : scanner.candidate.isPossible = true)
    (fresh : scanner.candidate.isFresh scanner.source = true)
    (last : scanner.count = scanner.candidate.number + 1)
    (undelivered : scanner.delivered ≤ scanner.candidate.number) {content : TokenContent}
    {others : List TokenContent} (contents : scanner.contents = content :: others)
    (ahead : scanner.source.rest = ':' :: rest) :
    ∃ next, scanner.scanValue? = some next ∧ scanner.source.Moves [':'] next.source ∧
      next.contents = .value :: content :: .key :: others ∧ next.Ready ∧
      next.enclosing = scanner.enclosing := by
  obtain ⟨newest, older, tokens, rfl, rfl⟩ := List.map_eq_cons_iff.mp contents
  -- one token is newer than the candidate, so its mark goes behind the first of the list
  have newer : (if scanner.candidate.number < scanner.delivered then 0
      else scanner.count - scanner.candidate.number) = 1 := by
    rw [if_neg (Nat.not_lt.mpr undelivered), last, Nat.add_sub_cancel_left]
  have inserted : scanner.insert scanner.candidate.number .key scanner.candidate.line =
      { scanner with
        tokens := newest :: ⟨.key, scanner.candidate.line⟩ :: older
        count := scanner.count + 1 } := by
    rw [insert, newer, tokens]
    rfl
  have scanned : scanner.scanValue? = some ((({ scanner with
      tokens := newest :: ⟨.key, scanner.candidate.line⟩ :: older
      count := scanner.count + 1 } : Scanner).forgetCandidate.withKeyAllowed false).take
        .value 1) := by
    rw [scanValue?, if_pos possible, if_pos fresh]
    exact confirmKey?_inFlow inserted inFlow
  refine ⟨_, scanned, moves_skip ahead, rfl, ?_, rfl⟩
  have bound := ready.lookahead
  exact ⟨(moves_skip ahead).clean ready.clean, ready.indent, ready.indents, ready.forget_optional,
    bound.imp id fun bound => by
      show scanner.delivered + 2 ≤ scanner.count + 1 + 1
      omega⟩

def marks : List Char := ['[', ']', Char.ofNat 0x7B, Char.ofNat 0x7D, ',', ':', '"']

theorem opens_of_mark {char : Char} (mark : char ∈ marks) (rest : List Char) : Opens char rest := by
  have all : ∀ char ∈ marks, isGap (some char) = false ∧ char ≠ '#' ∧ char ≠ '%' ∧
      char ≠ '.' ∧ char ≠ '-' := forall_mem_of_all (by decide)
  obtain ⟨noGap, noComment, noDirective, noPoint, noDash⟩ := all char mark
  exact ⟨noGap, noComment, noDirective, noPoint, fun dash => absurd dash noDash⟩

structure Brackets where
  opening : Char
  closing : Char
  start : TokenContent
  finish : TokenContent

def Brackets.square : Brackets := ⟨'[', ']', .flowSequenceStart, .flowSequenceEnd⟩

def Brackets.curly : Brackets :=
  ⟨Char.ofNat 0x7B, Char.ofNat 0x7D, .flowMappingStart, .flowMappingEnd⟩

variable {brackets : Brackets}

theorem scans_opening (ready : scanner.Ready)
    (fit : scanner.isInFlow = true ∨ TabsFit scanner.isKeyAllowed signs)
    (kind : brackets ∈ [Brackets.square, Brackets.curly])
    (ahead : scanner.source.rest = blanks signs ++ brackets.opening :: rest) (clear : Clear rest)
    (shallow : scanner.enclosing.length < greatestDepth) :
    ∃ next outer, scanner.Scans [brackets.start] next ∧ next.source.rest = rest ∧
      next.enclosing = outer :: scanner.enclosing ∧ next.isKeyAllowed = true := by
  have facts : brackets.opening ∈ marks ∧ brackets.start ≠ .streamEnd ∧
      ∀ scanner next, scanContent? scanner brackets.opening next =
        scanner.scanFlowStart? brackets.start := by
    simp only [List.mem_cons, List.not_mem_nil, or_false] at kind
    rcases kind with rfl | rfl <;> exact ⟨by decide, by decide, fun _ _ => rfl⟩
  obtain ⟨source, isKeyAllowed, moves, readyHere, atChar, _, scans⟩ :=
    ready.scans fit ahead (opens_of_mark facts.1 rest)
  obtain ⟨next, outer, scanned, adds, level, allowed⟩ :=
    scanFlowStart?_ready readyHere atChar shallow brackets.start
  obtain ⟨target, delivered, _, behind, scans⟩ := scans _ _ next rest
    ((facts.2.2 _ _).trans scanned) adds (by simp) facts.2.1 rfl clear
  exact ⟨_, outer, scans, behind, level, allowed⟩

theorem isInFlow_of_enclosing {outer : KeyCandidate} {enclosing : List KeyCandidate}
    (inside : scanner.enclosing = outer :: enclosing) : scanner.isInFlow = true := by
  rw [isInFlow, inside]
  rfl

theorem isInFlow_of_eq {next : Scanner} (inFlow : scanner.isInFlow = true)
    (level : next.enclosing = scanner.enclosing) : next.isInFlow = true := by
  rw [isInFlow, level]
  exact inFlow

theorem scans_closing (ready : scanner.Ready) {outer : KeyCandidate}
    {enclosing : List KeyCandidate} (inside : scanner.enclosing = outer :: enclosing)
    (kind : brackets ∈ [Brackets.square, Brackets.curly])
    (ahead : scanner.source.rest = blanks signs ++ brackets.closing :: rest) (clear : Clear rest) :
    ∃ next, scanner.Scans [brackets.finish] next ∧ next.source.rest = rest ∧
      next.enclosing = enclosing ∧ next.isKeyAllowed = false := by
  have facts : brackets.closing ∈ marks ∧ brackets.finish ≠ .streamEnd ∧
      ∀ scanner next, scanContent? scanner brackets.closing next =
        scanner.scanFlowEnd? brackets.finish := by
    simp only [List.mem_cons, List.not_mem_nil, or_false] at kind
    rcases kind with rfl | rfl <;> exact ⟨by decide, by decide, fun _ _ => rfl⟩
  obtain ⟨source, isKeyAllowed, moves, readyHere, atChar, _, scans⟩ :=
    ready.scans (Or.inl (isInFlow_of_enclosing inside)) ahead (opens_of_mark facts.1 rest)
  obtain ⟨next, scanned, adds, level, notAllowed⟩ :=
    scanFlowEnd?_ready readyHere atChar inside brackets.finish
  obtain ⟨target, delivered, _, behind, scans⟩ := scans _ _ next rest
    ((facts.2.2 _ _).trans scanned) adds (by simp) facts.2.1 rfl clear
  exact ⟨_, scans, behind, level, notAllowed⟩

theorem scans_comma (ready : scanner.Ready) (inFlow : scanner.isInFlow = true)
    (ahead : scanner.source.rest = blanks signs ++ ',' :: rest) (clear : Clear rest) :
    ∃ next, scanner.Scans [.flowEntry] next ∧ next.source.rest = rest ∧
      next.enclosing = scanner.enclosing ∧ next.isKeyAllowed = true := by
  obtain ⟨source, isKeyAllowed, moves, readyHere, atChar, _, scans⟩ :=
    ready.scans (Or.inl inFlow) ahead (opens_of_mark (by decide) rest)
  obtain ⟨next, scanned, adds, level, allowed⟩ := scanFlowEntry?_ready readyHere atChar
  obtain ⟨target, delivered, _, behind, scans⟩ :=
    scans _ _ next rest scanned adds (by simp) (by simp) rfl clear
  exact ⟨_, scans, behind, level, allowed⟩

theorem scans_string (ready : scanner.Ready) (inFlow : scanner.isInFlow = true)
    {string : List Sign} (fits : ∀ sign ∈ string, sign.FitsYaml)
    (ahead : scanner.source.rest = blanks signs ++ (Sign.quoted string ++ rest))
    (clear : Clear rest) :
    ∃ next, scanner.Scans [.scalar (Sign.textOf string) .doubleQuoted] next ∧
      next.source.rest = rest ∧ next.enclosing = scanner.enclosing ∧
      (scanner.isKeyAllowed = true → next.candidate.isPossible = true ∧
        next.count = next.candidate.number + 1 ∧ next.candidate.line = next.source.line ∧
        next.source.index = next.candidate.index + (Sign.quoted string).length) := by
  obtain ⟨source, isKeyAllowed, moves, readyHere, atChar, kept, scans⟩ :=
    ready.scans (Or.inl inFlow) ahead
      (opens_of_mark (by decide) (string.flatMap Sign.chars ++ ['"'] ++ rest))
  obtain ⟨next, scanned, adds, level, isKey⟩ := scanQuotedScalar?_ready readyHere fits atChar
  obtain ⟨target, delivered, comments, behind, scans⟩ :=
    scans _ _ next rest scanned adds (by simp [Sign.quoted]) (by simp) rfl clear
  refine ⟨_, scans, behind, level, fun allowed => ?_⟩
  obtain ⟨here, count⟩ := isKey ((kept inFlow).trans allowed)
  have unbroken : ∀ char ∈ Sign.quoted string, isBreak char = false := by
    have inside := Sign.unbroken_of_all fits
    have quote : isBreak '"' = false := by decide
    intro char member
    simp only [Sign.quoted, List.cons_append, List.mem_cons, List.mem_append,
      List.not_mem_nil, or_false] at member
    rcases member with rfl | member | rfl
    · exact quote
    · exact inside char member
    · exact quote
  have line : target.line = source.line :=
    (comments.line (by simp)).trans (adds.moves.line unbroken)
  have index : target.index = source.index + (Sign.quoted string).length :=
    comments.index.trans adds.moves.index
  simp only [here]
  exact ⟨rfl, count, line.symm, index⟩

theorem scanContent?_alphanum {char : Char} (alphanum : char.isAlphanum = true)
    (next : Option Char) : scanner.scanContent? char next = scanner.scanPlainScalar? := by
  have sign {other : Char} (special : other.isAlphanum = false) : char ≠ other := by
    rintro rfl
    simp [alphanum] at special
  have code := (isAlphanum_iff char).mp alphanum
  have noBrace : char.toNat ≠ 0x7B ∧ char.toNat ≠ 0x7D ∧ char.toNat ≠ 0x60 := by omega
  -- no sign that the scanner tests for is a letter or a digit
  have indicators : ∀ other ∈ "-?:,[]#&*!|>'\"%@".toList, other.isAlphanum = false :=
    forall_mem_of_all (by decide)
  have noIndicator : isIndicator char = false := by
    have absent : "-?:,[]#&*!|>'\"%@".toList.contains char = false := by
      rw [← Bool.not_eq_true, List.contains_iff_mem]
      exact fun member => sign (indicators char member) rfl
    rw [isIndicator, absent]
    simp [noBrace]
  have noGap : isGap (some char) = false := IsWordSign.isGap (Or.inl alphanum)
  have starts : startsPlain scanner.isInFlow char next = true := by
    simp [startsPlain, noIndicator, noGap]
  have others : char ≠ '[' ∧ char ≠ ']' ∧ char ≠ ',' ∧ char ≠ '-' ∧ char ≠ '?' ∧ char ≠ ':' ∧
      char ≠ '*' ∧ char ≠ '&' ∧ char ≠ '!' ∧ char ≠ '|' ∧ char ≠ '>' ∧ char ≠ '\'' ∧
      char ≠ '"' := by
    refine ⟨?_, ?_, ?_, ?_, ?_, ?_, ?_, ?_, ?_, ?_, ?_, ?_, ?_⟩ <;> exact sign (by decide)
  simp [scanContent?, others, noBrace, starts]

theorem scanContent?_negative {next : Char} (alphanum : next.isAlphanum = true) :
    scanner.scanContent? '-' (some next) = scanner.scanPlainScalar? := by
  have noGap : isGap (some next) = false := IsWordSign.isGap (Or.inl alphanum)
  have noBlank : isBlank next = false := (Bool.or_eq_false_iff.mp noGap).1
  simp [scanContent?, startsPlain, noGap, noBlank]

theorem opens_of_alphanum {char : Char} (alphanum : char.isAlphanum = true) (rest : List Char) :
    Opens char rest := by
  have sign {other : Char} (special : other.isAlphanum = false) : char ≠ other := by
    rintro rfl
    simp [alphanum] at special
  exact ⟨IsWordSign.isGap (Or.inl alphanum), sign (by decide), sign (by decide),
    sign (by decide), fun dash => absurd dash (sign (by decide))⟩

theorem exists_plain {word : List Char} (plain : Scalar.IsPlainWord word) (rest : List Char) :
    ∃ char others, word ++ rest = char :: others ∧ Opens char others ∧
      ∀ scanner, scanContent? scanner char others.head? = scanner.scanPlainScalar? := by
  cases plain with
  | @unsigned first others alphanum _ =>
      exact ⟨first, others ++ rest, rfl, opens_of_alphanum alphanum _,
        fun scanner => scanContent?_alphanum alphanum _⟩
  | @negative first others alphanum _ =>
      refine ⟨'-', first :: (others ++ rest), rfl, ?_, fun scanner =>
        scanContent?_negative alphanum⟩
      refine ⟨by decide, by decide, by decide, by decide, ?_⟩
      rintro - ⟨⟩
      exact absurd alphanum (by decide)

theorem scans_word (ready : scanner.Ready) (inFlow : scanner.isInFlow = true) {word : List Char}
    (plain : Scalar.IsPlainWord word) {behind : List Blank} {next : Char}
    (ends : Scalar.EndsItem next)
    (ahead : scanner.source.rest = blanks signs ++ (word ++ (blanks behind ++ next :: rest))) :
    ∃ final, scanner.Scans [.scalar (Text.ofChars word) .plain] final ∧
      final.source.rest = next :: rest ∧ final.enclosing = scanner.enclosing := by
  have isGaps : ∀ char ∈ blanks behind, isGap (some char) = true := by
    intro char member
    obtain ⟨blank, _, rfl⟩ := List.mem_map.mp member
    exact blank.isGap
  obtain ⟨char, others, split, opens, starts⟩ := exists_plain plain (blanks behind ++ next :: rest)
  rw [split] at ahead
  obtain ⟨source, isKeyAllowed, moves, readyHere, atChar, _, scans⟩ :=
    ready.scans (Or.inl inFlow) ahead opens
  obtain ⟨final, scanned, adds, level⟩ :=
    scanPlainScalar?_ready readyHere inFlow plain isGaps ends (atChar.trans split.symm)
  have nonempty : word ++ blanks behind ≠ [] := by simp [plain.ne_nil]
  have clear : Clear (next :: rest) := clear_of_stops (ends.stops rest) []
  obtain ⟨target, delivered, _, behind, scans⟩ := scans _ _ final (next :: rest)
    ((starts _).trans scanned) adds nonempty (by simp)
    (split.symm.trans (List.append_assoc _ _ _).symm) clear
  exact ⟨_, scans, behind, level⟩

theorem scanContent?_colon (inFlow : scanner.isInFlow = true) (next : Option Char) :
    scanner.scanContent? ':' next = scanner.scanValue? := by
  simp [scanContent?, inFlow]

theorem scans_key (ready : scanner.Ready) (inFlow : scanner.isInFlow = true)
    (allowed : scanner.isKeyAllowed = true) {key : List Sign} {beforeColon : List Blank}
    (fits : ∀ sign ∈ key, sign.FitsYaml) (near : KeyFits key beforeColon)
    (ahead : scanner.source.rest =
      blanks signs ++ (Sign.quoted key ++ (blanks beforeColon ++ ':' :: rest)))
    (clear : Clear rest) :
    ∃ next, scanner.Scans [.key, .scalar (Sign.textOf key) .doubleQuoted, .value] next ∧
      next.source.rest = rest ∧ next.enclosing = scanner.enclosing := by
  have colon := opens_of_mark (show ':' ∈ marks by decide) rest
  obtain ⟨middle, front, atColon, middleLevel, isKey⟩ :=
    scans_string ready inFlow fits ahead (clear_of_stops colon.stops beforeColon)
  obtain ⟨possible, count, line, index⟩ := isKey allowed
  have middleFlow := isInFlow_of_eq inFlow middleLevel
  obtain ⟨source, isKeyAllowed, moves, kept, leads⟩ :=
    front.ready.leads (Or.inl middleFlow) atColon colon
  have readyHere : ({ middle with source, isKeyAllowed }).Ready :=
    { front.ready with clean := moves.clean front.ready.clean }
  have flowHere : ({ middle with source, isKeyAllowed }).isInFlow = true := middleFlow
  have unbroken : ∀ char ∈ blanks beforeColon, isBreak char = false := by
    intro char member
    obtain ⟨blank, isBlank, rfl⟩ := List.mem_map.mp member
    rw [Blank.isBreak_char, near.1 blank isBlank]
  -- the colon finds the key on its line and within reach, as nothing but blanks came between
  have fresh : middle.candidate.isFresh source = true := by
    have moved : source.index = middle.source.index + beforeColon.length := by
      rw [moves.index, blanks, List.length_map]
    have reach := near.2
    simp only [KeyCandidate.isFresh, Bool.and_eq_true, decide_eq_true_eq]
    exact ⟨line.trans (moves.line unbroken).symm, by omega⟩
  -- the key is the last token, and the last two are never handed out
  have undelivered : middle.delivered ≤ middle.candidate.number := by
    have bound := front.ready.lookahead
    omega
  obtain ⟨next, scanned, nextMoves, contents, nextReady, level⟩ :=
    scanValue?_ready readyHere flowHere possible fresh count undelivered front.contents
      (moves.rest_eq atColon)
  have behind : next.source.rest = rest := nextMoves.rest_eq (moves.rest_eq atColon)
  obtain ⟨target, delivered, comments, leads⟩ := leads next
    ((scanContent?_colon flowHere _).trans scanned) nextReady
    (by rw [contents]; rintro other ⟨⟩; simp) (behind.symm ▸ clear) (by rw [behind])
  exact ⟨_, ⟨front.toLeads.trans leads, contents⟩, comments.rest.symm.trans behind,
    level.trans middleLevel⟩

end Yaml.Scanner

end EntitySchema
