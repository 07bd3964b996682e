import EntitySchema.Proofs.Yaml.Line
import EntitySchema.Yaml.Scanner

/-!
Every token of a YAML stream stands on a line. A token gets its line where the scanner stands, or
from the candidate that has become a key, which was remembered where the scanner stood.
-/

namespace EntitySchema.Yaml

def KeyCandidate.Numbered (candidate : KeyCandidate) : Prop :=
  candidate.isPossible = true → 0 < candidate.line

def Token.Numbered (token : Token) : Prop := 0 < token.line

namespace Scanner

/-- The scanner stands on a line, and so does everything that it remembers. -/
structure Numbered (scanner : Scanner) : Prop where
  source : 0 < scanner.source.line
  candidate : scanner.candidate.Numbered
  enclosing : ∀ candidate ∈ scanner.enclosing, candidate.Numbered
  tokens : ∀ token ∈ scanner.tokens, token.Numbered

variable {scanner next : Scanner}

theorem Numbered.moved {source : Source} (numbered : scanner.Numbered)
    (later : scanner.source.line ≤ source.line) : Numbered { scanner with source := source } :=
  ⟨Nat.lt_of_lt_of_le numbered.source later, numbered.candidate, numbered.enclosing,
    numbered.tokens⟩

theorem Numbered.push {content : TokenContent} {line : Nat} (numbered : scanner.Numbered)
    (positive : 0 < line) : (scanner.push content line).Numbered :=
  ⟨numbered.source, numbered.candidate, numbered.enclosing,
    List.forall_mem_cons.mpr ⟨positive, numbered.tokens⟩⟩

theorem Numbered.insert {content : TokenContent} {line : Nat} (numbered : scanner.Numbered)
    (number : Nat) (positive : 0 < line) : (scanner.insert number content line).Numbered := by
  refine ⟨numbered.source, numbered.candidate, numbered.enclosing, ?_⟩
  intro token member
  rcases List.mem_append.mp member with newer | member
  · exact numbered.tokens token (List.mem_of_mem_take newer)
  · rcases List.mem_cons.mp member with rfl | older
    · exact positive
    · exact numbered.tokens token (List.mem_of_mem_drop older)

theorem Numbered.withKeyAllowed (numbered : scanner.Numbered) (isAllowed : Bool) :
    (scanner.withKeyAllowed isAllowed).Numbered :=
  ⟨numbered.source, numbered.candidate, numbered.enclosing, numbered.tokens⟩

theorem Numbered.forgetCandidate (numbered : scanner.Numbered) :
    scanner.forgetCandidate.Numbered :=
  ⟨numbered.source, (fun possible => nomatch possible), numbered.enclosing, numbered.tokens⟩

theorem Numbered.take (numbered : scanner.Numbered) (content : TokenContent) (size : Nat) :
    (scanner.take content size).Numbered :=
  (numbered.push numbered.source).moved (by simp)

theorem Numbered.dropCandidate? (numbered : scanner.Numbered)
    (dropped : scanner.dropCandidate? = some next) : next.Numbered := by
  unfold Scanner.dropCandidate? at dropped
  split at dropped
  · contradiction
  · exact Option.some.inj dropped ▸ numbered.forgetCandidate

theorem Numbered.saveCandidate? (numbered : scanner.Numbered)
    (saved : scanner.saveCandidate? = some next) : next.Numbered := by
  unfold Scanner.saveCandidate? at saved
  split at saved
  · obtain ⟨bare, dropped, rfl⟩ := Option.map_eq_some_iff.mp saved
    have before := numbered.dropCandidate? dropped
    exact ⟨before.source, fun _ => numbered.source, before.enclosing, before.tokens⟩
  · exact Option.some.inj saved ▸ numbered

theorem Numbered.openBlock? {column number line : Nat} {content : TokenContent}
    (numbered : scanner.Numbered) (positive : 0 < line)
    (opened : scanner.openBlock? column number content line = some next) : next.Numbered := by
  unfold Scanner.openBlock? at opened
  split at opened
  · split at opened
    · contradiction
    · have outer : Numbered { scanner with
          indent := column
          indents := scanner.indent :: scanner.indents } :=
        ⟨numbered.source, numbered.candidate, numbered.enclosing, numbered.tokens⟩
      exact Option.some.inj opened ▸ outer.insert number positive
  · exact Option.some.inj opened ▸ numbered

theorem Numbered.closeBlocks {column : Int} {indents : List Int} (numbered : scanner.Numbered) :
    (closeBlocks column indents scanner).Numbered := by
  induction indents generalizing scanner with
  | nil => exact numbered
  | cons outer indents ih =>
      rw [Scanner.closeBlocks]
      split
      · apply ih
        have inner : Numbered { scanner with indent := outer, indents := indents } :=
          ⟨numbered.source, numbered.candidate, numbered.enclosing, numbered.tokens⟩
        exact inner.push numbered.source
      · exact numbered

theorem Numbered.unwind (numbered : scanner.Numbered) (column : Int) :
    (scanner.unwind column).Numbered := by
  unfold Scanner.unwind
  split
  · exact numbered
  · exact numbered.closeBlocks

theorem Numbered.closeLevel (numbered : scanner.Numbered) : scanner.closeLevel.Numbered := by
  unfold Scanner.closeLevel
  split
  · exact numbered
  next outer enclosing shape =>
    have around := List.forall_mem_cons.mp (shape ▸ numbered.enclosing)
    exact ⟨numbered.source, around.1, around.2, numbered.tokens⟩

theorem Numbered.ended (numbered : scanner.Numbered)
    (dropped : (scanner.unwind (-1)).dropCandidate? = some next) : next.Numbered :=
  (numbered.unwind (-1)).dropCandidate? dropped

theorem Numbered.scanStreamEnd? (numbered : scanner.Numbered)
    (scanned : scanner.scanStreamEnd? = some next) : next.Numbered := by
  obtain ⟨bare, dropped, rfl⟩ := Option.map_eq_some_iff.mp scanned
  have later : scanner.source.line ≤ (if scanner.source.column = 0 then scanner.source else
      { scanner.source with line := scanner.source.line + 1, column := 0 }).line := by
    split
    · exact Nat.le_refl _
    · exact Nat.le_succ _
  have moved := numbered.moved later
  exact ((moved.ended dropped).withKeyAllowed false).push moved.source

theorem Numbered.scanDocumentMark? {content : TokenContent} (numbered : scanner.Numbered)
    (scanned : scanner.scanDocumentMark? content = some next) : next.Numbered := by
  obtain ⟨bare, dropped, rfl⟩ := Option.map_eq_some_iff.mp scanned
  exact ((numbered.ended dropped).withKeyAllowed false).take content 3

theorem Numbered.taken {content : TokenContent} {rest : Source} (numbered : scanner.Numbered)
    (later : scanner.source.line ≤ rest.line) :
    Numbered { scanner.push content scanner.source.line with source := rest } :=
  (numbered.push numbered.source).moved later

theorem Numbered.scanDirective? (numbered : scanner.Numbered)
    (scanned : scanner.scanDirective? = some next) : next.Numbered := by
  obtain ⟨bare, dropped, added⟩ := Option.bind_eq_some_iff.mp scanned
  obtain ⟨⟨directive, rest⟩, read, rfl⟩ := Option.map_eq_some_iff.mp added
  exact ((numbered.ended dropped).withKeyAllowed false).taken (Directive.line_le_read? read)

theorem Numbered.scanFlowStart? {content : TokenContent} (numbered : scanner.Numbered)
    (scanned : scanner.scanFlowStart? content = some next) : next.Numbered := by
  unfold Scanner.scanFlowStart? at scanned
  split at scanned
  · contradiction
  · obtain ⟨saved, kept, rfl⟩ := Option.map_eq_some_iff.mp scanned
    have before := numbered.saveCandidate? kept
    have level : Numbered { saved with
        candidate := { isPossible := false, number := saved.count }
        enclosing := saved.candidate :: saved.enclosing } :=
      ⟨before.source, (fun possible => nomatch possible),
        List.forall_mem_cons.mpr ⟨before.candidate, before.enclosing⟩, before.tokens⟩
    exact (level.withKeyAllowed true).take content 1

theorem Numbered.scanFlowEnd? {content : TokenContent} (numbered : scanner.Numbered)
    (scanned : scanner.scanFlowEnd? content = some next) : next.Numbered := by
  obtain ⟨bare, dropped, rfl⟩ := Option.map_eq_some_iff.mp scanned
  exact ((numbered.dropCandidate? dropped).closeLevel.withKeyAllowed false).take content 1

theorem Numbered.scanFlowEntry? (numbered : scanner.Numbered)
    (scanned : scanner.scanFlowEntry? = some next) : next.Numbered := by
  obtain ⟨bare, dropped, rfl⟩ := Option.map_eq_some_iff.mp scanned
  exact ((numbered.dropCandidate? dropped).withKeyAllowed true).take .flowEntry 1

theorem Numbered.scanBlockEntry? (numbered : scanner.Numbered)
    (scanned : scanner.scanBlockEntry? = some next) : next.Numbered := by
  unfold Scanner.scanBlockEntry? at scanned
  split at scanned
  · contradiction
  · simp only [Option.bind_eq_bind, Option.bind_eq_some_iff, Option.some.injEq] at scanned
    obtain ⟨block, opened, bare, dropped, rfl⟩ := scanned
    have before := (numbered.openBlock? numbered.source opened).dropCandidate? dropped
    exact (before.withKeyAllowed true).take .blockEntry 1

theorem Numbered.scanKey? (numbered : scanner.Numbered)
    (scanned : scanner.scanKey? = some next) : next.Numbered := by
  unfold Scanner.scanKey? at scanned
  split at scanned
  · contradiction
  · simp only [Option.bind_eq_bind, Option.bind_eq_some_iff, Option.some.injEq] at scanned
    obtain ⟨block, opened, bare, dropped, rfl⟩ := scanned
    have before := (numbered.openBlock? numbered.source opened).dropCandidate? dropped
    exact (before.withKeyAllowed _).take .key 1

theorem Numbered.confirmKey? (numbered : scanner.Numbered)
    (possible : scanner.candidate.isPossible = true)
    (scanned : scanner.confirmKey? = some next) : next.Numbered := by
  obtain ⟨block, opened, rfl⟩ := Option.map_eq_some_iff.mp scanned
  have positive := numbered.candidate possible
  have announced : (scanner.insert scanner.candidate.number .key scanner.candidate.line).Numbered :=
    numbered.insert scanner.candidate.number positive
  exact ((announced.openBlock? positive opened).forgetCandidate.withKeyAllowed false).take .value 1

theorem Numbered.scanBareValue? (numbered : scanner.Numbered)
    (scanned : scanner.scanBareValue? = some next) : next.Numbered := by
  unfold Scanner.scanBareValue? at scanned
  split at scanned
  · contradiction
  · obtain ⟨block, opened, rfl⟩ := Option.map_eq_some_iff.mp scanned
    exact ((numbered.openBlock? numbered.source opened).withKeyAllowed _).take .value 1

theorem Numbered.scanValue? (numbered : scanner.Numbered)
    (scanned : scanner.scanValue? = some next) : next.Numbered := by
  unfold Scanner.scanValue? at scanned
  split at scanned
  next possible =>
    split at scanned
    · exact numbered.confirmKey? possible scanned
    · split at scanned
      · contradiction
      · exact numbered.forgetCandidate.scanBareValue? scanned
  next => exact numbered.scanBareValue? scanned

theorem Numbered.scanAnchor? {content : Text → TokenContent} (numbered : scanner.Numbered)
    (scanned : scanner.scanAnchor? content = some next) : next.Numbered := by
  obtain ⟨saved, kept, read⟩ := Option.bind_eq_some_iff.mp scanned
  dsimp only at read
  split at read
  · contradiction
  · have before := (numbered.saveCandidate? kept).withKeyAllowed false
    exact Option.some.inj read ▸ before.taken (Nat.le_of_eq (by simp [Scanner.withKeyAllowed]))

theorem Numbered.scanTag? (numbered : scanner.Numbered)
    (scanned : scanner.scanTag? = some next) : next.Numbered := by
  obtain ⟨saved, kept, added⟩ := Option.bind_eq_some_iff.mp scanned
  obtain ⟨⟨handle, suffix, rest⟩, read, rfl⟩ := Option.map_eq_some_iff.mp added
  exact ((numbered.saveCandidate? kept).withKeyAllowed false).taken
    (Nat.le_of_eq (Tag.read?_line read).symm)

theorem Numbered.scanBlockScalar? {literal : Bool} (numbered : scanner.Numbered)
    (scanned : scanner.scanBlockScalar? literal = some next) : next.Numbered := by
  unfold Scanner.scanBlockScalar? at scanned
  split at scanned
  · contradiction
  next bare dropped =>
    split at scanned
    · contradiction
    next text rest read =>
      exact Option.some.inj scanned ▸ ((numbered.dropCandidate? dropped).withKeyAllowed true).taken
        (Scalar.line_le_readBlock? read)

theorem Numbered.scanQuotedScalar? {single : Bool} (numbered : scanner.Numbered)
    (scanned : scanner.scanQuotedScalar? single = some next) : next.Numbered := by
  unfold Scanner.scanQuotedScalar? at scanned
  split at scanned
  · contradiction
  next saved kept =>
    split at scanned
    · contradiction
    next text rest read =>
      exact Option.some.inj scanned ▸ ((numbered.saveCandidate? kept).withKeyAllowed false).taken
        (Scalar.line_le_readQuoted? read)

theorem Numbered.scanPlainScalar? (numbered : scanner.Numbered)
    (scanned : scanner.scanPlainScalar? = some next) : next.Numbered := by
  unfold Scanner.scanPlainScalar? at scanned
  split at scanned
  · contradiction
  next saved kept =>
    split at scanned
    · contradiction
    next text leftLine rest read =>
      exact Option.some.inj scanned ▸
        ((numbered.saveCandidate? kept).withKeyAllowed leftLine).taken
          (Scalar.line_le_readPlainFrom? read)

theorem numbered_of_ite {condition : Prop} [Decidable condition] {yes no : Option Scanner}
    (left : yes = some next → next.Numbered) (right : no = some next → next.Numbered) :
    (if condition then yes else no) = some next → next.Numbered := by
  split
  · exact left
  · exact right

theorem Numbered.scanContent? {char : Char} {following : Option Char}
    (numbered : scanner.Numbered) :
    scanner.scanContent? char following = some next → next.Numbered := by
  unfold Scanner.scanContent?
  apply numbered_of_ite numbered.scanFlowStart?
  apply numbered_of_ite numbered.scanFlowStart?
  apply numbered_of_ite numbered.scanFlowEnd?
  apply numbered_of_ite numbered.scanFlowEnd?
  apply numbered_of_ite numbered.scanFlowEntry?
  apply numbered_of_ite numbered.scanBlockEntry?
  apply numbered_of_ite numbered.scanKey?
  apply numbered_of_ite numbered.scanValue?
  apply numbered_of_ite numbered.scanAnchor?
  apply numbered_of_ite numbered.scanAnchor?
  apply numbered_of_ite numbered.scanTag?
  apply numbered_of_ite numbered.scanBlockScalar?
  apply numbered_of_ite numbered.scanBlockScalar?
  apply numbered_of_ite numbered.scanQuotedScalar?
  apply numbered_of_ite numbered.scanQuotedScalar?
  apply numbered_of_ite numbered.scanPlainScalar?
  exact fun scanned => nomatch scanned

theorem Numbered.skipToToken (numbered : scanner.Numbered) (fuel : Nat) :
    (skipToToken fuel scanner).Numbered := by
  induction fuel generalizing scanner with
  | zero => exact numbered
  | succ fuel ih =>
      rw [Scanner.skipToToken]
      dsimp only
      generalize marked : (if ((scanner.source.want 1).column = 0 &&
        (scanner.source.want 1).opensWithMark) = true then
          (scanner.source.want 1).skip else scanner.source.want 1) = opened
      have opening : opened.line = scanner.source.line := by
        rw [← marked]
        split <;> simp
      generalize blanks : opened.skipWhile _ = filled
      have filling : filled.line = scanner.source.line := by
        rw [← blanks, Source.skipWhile_line, opening]
      generalize commented : (if filled.nextIs '#' = true then
        filled.skipComments (filled.remaining + 1) else filled) = reached
      have later : scanner.source.line ≤ reached.line := by
        rw [← commented, ← filling]
        split
        · exact Source.line_le_skipComments _ _
        · exact Nat.le_refl _
      split
      · have below := numbered.moved (Nat.le_trans later (Source.line_le_skipBreak reached))
        split
        · exact ih below
        · exact ih (below.withKeyAllowed true)
      · exact numbered.moved later

theorem Numbered.step? (numbered : scanner.Numbered) (stepped : scanner.step? = some next) :
    next.Numbered := by
  have placed := ((numbered.skipToToken (scanner.source.remaining + 1)).unwind
    (scanner.skipToToken (scanner.source.remaining + 1)).source.column)
  generalize reached : (scanner.skipToToken (scanner.source.remaining + 1)).unwind
    (scanner.skipToToken (scanner.source.remaining + 1)).source.column = start at placed
  unfold Scanner.step? at stepped
  simp only [reached] at stepped
  have looking := placed.moved (Nat.le_of_eq (Source.want_line start.source 4).symm)
  split at stepped
  · exact looking.scanStreamEnd? stepped
  · split at stepped
    · exact looking.scanDirective? stepped
    · split at stepped
      · exact looking.scanDocumentMark? stepped
      · split at stepped
        · exact looking.scanDocumentMark? stepped
        · obtain ⟨scanned, content, rfl⟩ := Option.map_eq_some_iff.mp stepped
          have after := looking.scanContent? content
          split
          · exact after.moved (Nat.le_of_eq (Source.skipLineComment_line _).symm)
          · exact after

theorem Numbered.deliver (numbered : scanner.Numbered) (fuel : Nat) :
    (deliver fuel scanner).1.Numbered := by
  induction fuel generalizing scanner with
  | zero => exact numbered
  | succ fuel ih =>
      have further : Numbered { scanner with delivered := scanner.delivered + 1 } :=
        ⟨numbered.source, numbered.candidate, numbered.enclosing, numbered.tokens⟩
      rw [Scanner.deliver]
      split
      · exact numbered
      · split
        · exact ih further
        · split
          · exact numbered
          · split
            · exact numbered
            · exact ih further

theorem Numbered.deliveredTokens (numbered : scanner.Numbered) :
    ∀ token ∈ scanner.deliveredTokens, token.Numbered := by
  intro token member
  exact numbered.tokens token (List.mem_of_mem_drop (List.mem_reverse.mp member))

theorem Numbered.run (numbered : scanner.Numbered) (fuel : Nat) :
    ∀ token ∈ run fuel scanner, token.Numbered := by
  induction fuel generalizing scanner with
  | zero => exact numbered.deliveredTokens
  | succ fuel ih =>
      rw [run_succ]
      split
      · exact numbered.deliveredTokens
      next next stepped =>
        have after := numbered.step? stepped
        split
        · exact numbered.deliveredTokens
        · split
          · exact fun token member => after.tokens token (List.mem_reverse.mp member)
          · have handed := after.deliver next.count
            split
            next further same =>
              rw [same] at handed
              exact ih handed
            next further same =>
              rw [same] at handed
              exact handed.deliveredTokens

end Scanner

theorem numbered_tokensOf (text : Text) : ∀ token ∈ tokensOf text, token.Numbered := by
  refine Scanner.Numbered.run ⟨?_, ?_, ?_, ?_⟩ _
  · exact Nat.one_pos
  · exact fun possible => nomatch possible
  · exact fun candidate inside => nomatch inside
  · exact fun candidate inside => nomatch inside

end EntitySchema.Yaml
