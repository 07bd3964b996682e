import EntitySchema.Yaml.Comment
import EntitySchema.Yaml.Tag

/-!
The lines of a YAML stream. They are counted from one and never back: a reader leaves its source on
the line where it found it, or on a later one.
-/

namespace EntitySchema.Yaml

namespace Source

variable {source target : Source}

@[simp]
theorem want_line (source : Source) (count : Nat) : (source.want count).line = source.line := by
  unfold want
  split <;> rfl

@[simp]
theorem skip_line (source : Source) : source.skip.line = source.line := by
  unfold skip
  split <;> rfl

@[simp]
theorem skipMany_line (source : Source) (count : Nat) :
    (skipMany count source).line = source.line := by
  induction count generalizing source with
  | zero => rfl
  | succ count ih => rw [skipMany, ih, skip_line]

@[simp]
theorem pass_line (source : Source) (ahead count : Nat) :
    (pass ahead count source).line = source.line := by
  induction count generalizing source with
  | zero => rfl
  | succ count ih => rw [pass, ih, want_line, skip_line]

@[simp]
theorem skipWhile_line (source : Source) (test : Char → Bool) :
    (source.skipWhile test).line = source.line := by
  rw [skipWhile, pass_line, want_line]

theorem line_le_skipLine (source : Source) : source.line ≤ source.skipLine.line := by
  unfold skipLine
  split <;> simp

theorem line_le_skipBreak (source : Source) : source.line ≤ source.skipBreak.line := by
  unfold skipBreak
  split
  · simpa using line_le_skipLine (source.want 2)
  · exact Nat.le_refl _

@[simp]
theorem skipToBreak_line (source : Source) : source.skipToBreak.line = source.line :=
  skipWhile_line source _

theorem line_le_skipLineEnd? (skipped : source.skipLineEnd? = some target) :
    source.line ≤ target.line := by
  unfold skipLineEnd? at skipped
  dsimp only at skipped
  generalize place : (if (source.skipWhile isBlank).nextIs '#' then
    (source.skipWhile isBlank).skipToBreak else source.skipWhile isBlank) = ended at skipped
  have line : ended.line = source.line := by
    rw [← place]
    split <;> simp
  split at skipped
  · obtain rfl := Option.some.inj skipped
    exact line ▸ line_le_skipBreak ended
  · contradiction

@[simp]
theorem skipLineComment_line (source : Source) : source.skipLineComment.line = source.line := by
  unfold skipLineComment
  dsimp only
  split <;> simp 

theorem line_le_skipTo (index fuel : Nat) (source : Source) :
    source.line ≤ (skipTo index fuel source).line := by
  induction fuel generalizing source with
  | zero => exact Nat.le_refl _
  | succ fuel ih =>
      rw [skipTo]
      split
      · exact Nat.le_refl _
      · refine Nat.le_trans ?_ (ih _)
        split
        · exact line_le_skipLine source
        · exact Nat.le_of_eq (skip_line source).symm

theorem line_le_skipComments (fuel : Nat) (source : Source) :
    source.line ≤ (skipComments fuel source).line := by
  induction fuel generalizing source with
  | zero => exact Nat.le_refl _
  | succ fuel ih =>
      rw [skipComments]
      dsimp only
      split
      · split
        · refine Nat.le_trans ?_ (ih _)
          refine Nat.le_trans ?_ (line_le_skipTo _ _ _)
          simp 
        · simp 
      · simp 

end Source

open Source

section Readers

variable {source target : Source}

@[simp]
theorem readWord_line (source : Source) : (readWord source).2.line = source.line := by
  rw [readWord, pass_line, want_line]

namespace Tag

theorem readOctet?_line {octet : Byte} (read : readOctet? source = some (octet, target)) :
    target.line = source.line := by
  unfold readOctet? at read
  dsimp only at read
  split at read
  · simp only [Option.bind_eq_bind, Option.bind_eq_some_iff, Option.some.injEq,
      Prod.mk.injEq] at read
    obtain ⟨_, _, _, _, _, rfl⟩ := read
    simp
  · contradiction

theorem readContinuation?_line {count : Nat} {octets : Text}
    (read : readContinuation? count source = some (octets, target)) :
    target.line = source.line := by
  induction count generalizing source octets with
  | zero =>
      simp only [readContinuation?, Option.some.injEq, Prod.mk.injEq] at read
      rw [read.2]
  | succ count ih =>
      rw [readContinuation?] at read
      split at read
      · contradiction
      next octet middle first =>
        split at read
        · obtain ⟨⟨others, place⟩, rest, same⟩ := Option.map_eq_some_iff.mp read
          obtain rfl := (Prod.mk.inj same).2
          rw [ih rest, readOctet?_line first]
        · contradiction

theorem readEscape?_line {octets : Text} (read : readEscape? source = some (octets, target)) :
    target.line = source.line := by
  simp only [readEscape?, Option.bind_eq_bind, Option.bind_eq_some_iff, Option.some.injEq,
    Prod.mk.injEq, Prod.exists] at read
  obtain ⟨_, _, first, _, _, _, _, rest, _, rfl⟩ := read
  rw [readContinuation?_line rest, readOctet?_line first]

theorem readUriFrom?_line {fuel : Nat} {done uri : Text}
    (read : readUriFrom? fuel done source = some (uri, target)) : target.line = source.line := by
  fun_induction readUriFrom? fuel done source with
  | case1 => contradiction
  | case2 | case3 => grind [want_line]
  | case4 => contradiction
  | case5 => grind [want_line, readEscape?_line]
  | case6 => grind [want_line, skip_line]

theorem readUri?_line {uri : Text} (read : readUri? source = some (uri, target)) :
    target.line = source.line := readUriFrom?_line read

theorem readNonemptyUri?_line {uri : Text} (read : readNonemptyUri? source = some (uri, target)) :
    target.line = source.line := readUri?_line (Option.filter_eq_some_iff.mp read).1

theorem readHandle?_line {handle : Text} (read : readHandle? source = some (handle, target)) :
    target.line = source.line := by
  unfold readHandle? at read
  dsimp only at read
  split at read
  · split at read <;> obtain rfl := (Prod.mk.inj (Option.some.inj read)).2 <;> simp
  · contradiction

theorem read?_line {handle suffix : Text} (read : read? source = some (handle, suffix, target)) :
    target.line = source.line := by
  simp only [read?, Option.bind_eq_bind] at read
  split at read
  · simp only [Option.bind_eq_some_iff, Option.ite_none_right_eq_some, Option.some.injEq,
      Prod.mk.injEq, Prod.exists] at read
    obtain ⟨_, _, middle, ⟨uri, place, inside, _, _, _, rfl⟩, _, _, _, rfl⟩ := read
    simpa using readNonemptyUri?_line inside
  · simp only [Option.bind_eq_some_iff, Option.ite_none_right_eq_some, Option.some.injEq,
      Prod.mk.injEq, Prod.exists] at read
    obtain ⟨_, _, middle, ⟨handle', place, first, rest⟩, _, _, _, rfl⟩ := read
    have front := readHandle?_line first
    rw [want_line] at front
    rw [want_line, ← front]
    split at rest
    · obtain ⟨⟨uri, behind⟩, inside, same⟩ := Option.map_eq_some_iff.mp rest
      rw [← (Prod.mk.inj (Prod.mk.inj same).2).2, readNonemptyUri?_line inside]
    · obtain ⟨⟨uri, behind⟩, inside, same⟩ := Option.map_eq_some_iff.mp rest
      have line := readUri?_line inside
      split at same <;> rwa [← (Prod.mk.inj (Prod.mk.inj same).2).2]

end Tag

namespace Directive

theorem readNumber?_line {number : Nat} (read : readNumber? source = some (number, target)) :
    target.line = source.line := by
  unfold readNumber? at read
  dsimp only at read
  split at read
  · contradiction
  · simp only [Option.some.injEq, Prod.mk.injEq] at read
    simp [← read.2]

theorem readVersion?_line {directive : Directive}
    (read : readVersion? source = some (directive, target)) : target.line = source.line := by
  simp only [readVersion?, Option.bind_eq_bind, Option.bind_eq_some_iff,
    Option.ite_none_right_eq_some, Option.some.injEq, Prod.mk.injEq, Prod.exists] at read
  obtain ⟨major, middle, first, _, minor, place, second, _, rfl⟩ := read
  rw [readNumber?_line second, skip_line, readNumber?_line first, skipWhile_line]

theorem readTag?_line {directive : Directive}
    (read : readTag? source = some (directive, target)) : target.line = source.line := by
  simp only [readTag?, Option.bind_eq_bind, Option.bind_eq_some_iff,
    Option.ite_none_right_eq_some, Option.some.injEq, Prod.mk.injEq, Prod.exists] at read
  obtain ⟨handle, middle, first, _, base, place, second, _, _, rfl⟩ := read
  rw [want_line, Tag.readNonemptyUri?_line second, skipWhile_line, want_line,
    Tag.readHandle?_line first, skipWhile_line]

theorem line_le_read? {directive : Directive} (read : read? source = some (directive, target)) :
    source.line ≤ target.line := by
  simp only [read?, Option.bind_eq_bind, Option.ite_none_right_eq_some] at read
  obtain ⟨_, read⟩ := read
  split at read
  · simp only [Option.bind_eq_some_iff, Option.some.injEq, Prod.mk.injEq, Prod.exists] at read
    obtain ⟨directive', middle, inside, place, ended, _, rfl⟩ := read
    simpa [readVersion?_line inside] using line_le_skipLineEnd? ended
  · split at read
    · simp only [Option.bind_eq_some_iff, Option.some.injEq, Prod.mk.injEq, Prod.exists] at read
      obtain ⟨directive', middle, inside, place, ended, _, rfl⟩ := read
      simpa [readTag?_line inside] using line_le_skipLineEnd? ended
    · contradiction

end Directive

namespace Scalar

theorem line_le_readGap? {indent fuel : Nat} {gap found : Gap}
    (read : readGap? indent fuel gap source = some (found, target)) :
    source.line ≤ target.line := by
  fun_induction readGap? indent fuel gap source with
  | case1 => contradiction
  | case2 => exact Nat.le_of_eq (congrArg Source.line (Prod.mk.inj (Option.some.inj read)).2)
  | case3 => contradiction
  | case4 fuel gap source char next isBlank further _ _ ih =>
      have later := ih read
      simpa [further] using later
  | case5 fuel gap source char next isBlank further _ ih =>
      have later := ih read
      simpa [further] using later
  | case6 fuel gap source char next notBlank isBreak _ ih =>
      have first := line_le_skipBreak source
      have later := ih read
      rw [want_line] at later
      omega
  | case7 => exact Nat.le_of_eq (congrArg Source.line (Prod.mk.inj (Option.some.inj read)).2)

theorem line_le_readPlainFrom? {inFlow leftLine : Bool} {indent fuel : Nat} {done text : List Char}
    {gap : Gap} (read : readPlainFrom? inFlow indent fuel done gap source =
      some (text, leftLine, target)) : source.line ≤ target.line := by
  fun_induction readPlainFrom? inFlow indent fuel done gap source with
  | case1 => contradiction
  | case2 fuel done gap source asked =>
      simp only [Option.some.injEq, Prod.mk.injEq] at read
      simp [← read.2.2, asked]
  | case3 => contradiction
  | case4 fuel done gap source asked isOver size _ text' behind _ gap' middle passed =>
      have first := line_le_readGap? passed
      simp only [Option.some.injEq, Prod.mk.injEq] at read
      simpa [← read.2.2, behind, asked] using first
  | case5 fuel done gap source asked isOver size _ text' behind _ gap' middle passed _ ih =>
      have first := line_le_readGap? passed
      have later := ih read
      simp only [behind, asked, pass_line, want_line] at first
      omega
  | case6 fuel done gap source asked isOver size _ text' behind =>
      simp only [Option.some.injEq, Prod.mk.injEq] at read
      simp [← read.2.2, behind, asked]

theorem line_le_readRun? {single : Bool} {fuel : Nat} {done found : List Char} {ending : RunEnd}
    (read : readRun? single fuel done source = some (found, ending, target)) :
    source.line ≤ target.line := by
  have broken := line_le_skipLine
  fun_induction readRun? single fuel done source <;> grind [want_line, skip_line, skipMany_line]

theorem line_le_readGapAfterEscape? {fuel : Nat} {breaks found : List Char}
    (read : readGapAfterEscape? fuel breaks source = some (found, target)) :
    source.line ≤ target.line := by
  have broken := line_le_skipBreak
  fun_induction readGapAfterEscape? fuel breaks source <;> grind [want_line, skip_line]

theorem line_le_readQuotedFrom? {single : Bool} {fuel : Nat} {done text : List Char}
    (read : readQuotedFrom? single fuel done source = some (text, target)) :
    source.line ≤ target.line := by
  fun_induction readQuotedFrom? single fuel done source with
  | case1 => contradiction
  | case2 => contradiction
  | case3 => contradiction
  | case4 fuel done source asked _ found middle first =>
      have run := line_le_readRun? first
      simp only [Option.some.injEq, Prod.mk.injEq] at read
      simpa [← read.2, asked] using run
  | case5 => contradiction
  | case6 fuel done source asked _ found middle first gap behind passed ih =>
      have run := line_le_readRun? first
      have between := line_le_readGap? passed
      have later := ih read
      simp only [asked, want_line] at run
      omega
  | case7 => contradiction
  | case8 fuel done source asked _ found middle first breaks behind passed ih =>
      have run := line_le_readRun? first
      have between := line_le_readGapAfterEscape? passed
      have later := ih read
      simp only [asked, want_line] at run between
      omega

theorem line_le_readQuoted? {single : Bool} {text : List Char}
    (read : readQuoted? single source = some (text, target)) : source.line ≤ target.line := by
  simpa using line_le_readQuotedFrom? read

theorem readIncrement?_line {increment : Nat}
    (read : readIncrement? source = some (increment, target)) : target.line = source.line := by
  grind [readIncrement?, want_line, skip_line]

theorem readHeader?_line {chomping : Chomping} {increment : Nat}
    (read : readHeader? source = some (chomping, increment, target)) :
    target.line = source.line := by
  unfold readHeader? at read
  split at read
  · obtain ⟨⟨count, place⟩, first, same⟩ := Option.map_eq_some_iff.mp read
    simp only [Prod.mk.injEq] at same
    have line := readIncrement?_line first
    simpa [← same.2.2] using line
  · grind [readIncrement?_line, skip_line]

theorem line_le_readEmptyLines? {indent fuel widest columns : Nat} {breaks found : List Char}
    (read : readEmptyLines? indent fuel breaks widest source = some (found, columns, target)) :
    source.line ≤ target.line := by
  fun_induction readEmptyLines? indent fuel breaks widest source with
  | case1 => contradiction
  | case2 => contradiction
  | case3 fuel breaks widest source asked spaces taken passed _ _ _ ih =>
      have first : source.line ≤ passed.skipBreak.line := by
        simpa [passed, asked] using line_le_skipBreak passed
      exact Nat.le_trans first (ih read)
  | case4 fuel breaks widest source asked spaces taken passed =>
      simp only [Option.some.injEq, Prod.mk.injEq] at read
      simp [← read.2.2, passed, asked]

theorem line_le_readLines? {literal : Bool} {indent fuel : Nat} {text found : BlockText}
    (read : readLines? literal indent fuel text source = some (found, target)) :
    source.line ≤ target.line := by
  fun_induction readLines? literal indent fuel text source with
  | case1 => contradiction
  | case2 => contradiction
  | case3 fuel text source _ line text' behind lastBreak breaks columns middle passed ih =>
      have first : source.line ≤ behind.skipBreak.line := by
        simpa [behind] using line_le_skipBreak behind
      have between := line_le_readEmptyLines? passed
      have later := ih read
      omega
  | case4 => exact Nat.le_of_eq (congrArg Source.line (Prod.mk.inj (Option.some.inj read)).2)

theorem line_le_readBlock? {literal : Bool} {parent : Int} {text : List Char}
    (read : readBlock? literal parent source = some (text, target)) :
    source.line ≤ target.line := by
  simp only [readBlock?, Option.bind_eq_bind, Option.bind_eq_some_iff, Option.some.injEq,
    Prod.mk.injEq, Prod.exists] at read
  obtain ⟨chomping, increment, header, first, start, ended, breaks, widest, opening, empty,
    lines, place, content, _, rfl⟩ := read
  have headerLine := readHeader?_line first
  have startLine := line_le_skipLineEnd? ended
  have openingLine := line_le_readEmptyLines? empty
  have contentLine := line_le_readLines? content
  simp only [want_line, skip_line] at headerLine
  omega

end Scalar

end Readers

end EntitySchema.Yaml
