import EntitySchema.Proofs.Json.Contents
import EntitySchema.Proofs.Yaml.Piece

/-!
The tokens of a whole JSON text: a document whose signs YAML knows is fetched completely, and
scanned from its first sign to the end of the stream.
-/

namespace EntitySchema

open Yaml

namespace Json

def Readable (char : Char) : Prop := isAllowed char = true ∧ char ≠ byteOrderMark

instance : DecidablePred Readable := fun _ => inferInstanceAs (Decidable (_ ∧ _))

theorem readable_of_ascii {char : Char} (range : 0x20 ≤ char.toNat ∧ char.toNat ≤ 0x7E) :
    Readable char := by
  refine ⟨by simp [isAllowed, range], ?_⟩
  rintro rfl
  exact absurd range.2 (by decide)

theorem readable_wordSign {char : Char} (sign : IsWordSign char) : Readable char := by
  rcases sign with alphanum | sign
  · have range := (isAlphanum_iff char).mp alphanum
    exact readable_of_ascii (by omega)
  · have all : ∀ char ∈ ['+', '-', '.'], Readable char := forall_mem_of_all (by decide)
    exact all char sign

theorem readable_mark {char : Char} (mark : char ∈ Scanner.marks) : Readable char := by
  have all : ∀ char ∈ Scanner.marks, Readable char := forall_mem_of_all (by decide)
  exact all char mark

theorem readable_blanks (signs : List Blank) : ∀ char ∈ blanks signs, Readable char := by
  intro char member
  obtain ⟨sign, _, rfl⟩ := List.mem_map.mp member
  cases sign <;> decide

theorem readable_word {word : List Char} (plain : Scalar.IsPlainWord word) :
    ∀ char ∈ word, Readable char :=
  fun char member => readable_wordSign (plain.isWordSign char member)

theorem Sign.readable {sign : Sign} (fits : sign.FitsYaml) :
    ∀ char ∈ sign.chars, Readable char := by
  cases sign with
  | raw char isRaw => simpa [chars] using ⟨fits.1, fits.2.2⟩
  | escape escaped => cases escaped <;> exact forall_mem_of_all (by decide)
  | unit single =>
      have digit (digit : HexDigit) : Readable digit.char :=
        readable_wordSign (Or.inl digit.isAlphanum)
      simp only [chars, CodeUnit.chars, List.forall_mem_cons, digit, true_and]
      exact ⟨readable_of_ascii (by decide), readable_of_ascii (by decide), by simp⟩

theorem readable_quoted {signs : List Sign} (fits : ∀ sign ∈ signs, sign.FitsYaml) :
    ∀ char ∈ Sign.quoted signs, Readable char := by
  intro char member
  simp only [Sign.quoted, List.cons_append, List.mem_cons, List.mem_append, List.mem_flatMap,
    List.not_mem_nil, or_false] at member
  rcases member with rfl | ⟨sign, isSign, isChar⟩ | rfl
  · exact readable_mark (by decide)
  · exact Sign.readable (fits sign isSign) char isChar
  · exact readable_mark (by decide)

theorem readable_brackets {opening closing : Char} {inside : List Char}
    (first : opening ∈ Scanner.marks) (last : closing ∈ Scanner.marks)
    (between : ∀ char ∈ inside, Readable char) :
    ∀ char ∈ opening :: inside ++ [closing], Readable char := by
  simp only [List.cons_append, List.forall_mem_cons, List.forall_mem_append]
  exact ⟨readable_mark first, between, readable_mark last, by simp⟩

mutual

theorem Written.readable : (written : Written) → written.FitsYaml →
    ∀ char ∈ written.chars, Readable char
  | .null, _ => readable_word (.ofWord (by decide))
  | .boolean value, _ => readable_word (.ofWord (ofBool_mem_words value))
  | .number _ isNumber, _ => readable_word (.ofNumber isNumber)
  | .string _, fits => readable_quoted fits
  | .emptyArray inside, _ => readable_brackets (by decide) (by decide) (readable_blanks inside)
  | .array items, fits => readable_brackets (by decide) (by decide) (items.readable fits)
  | .emptyObject inside, _ => readable_brackets (by decide) (by decide) (readable_blanks inside)
  | .object members, fits => readable_brackets (by decide) (by decide) (members.readable fits)

theorem Items.readable : (items : Items) → items.FitsYaml → ∀ char ∈ items.chars, Readable char
  | .last before item behind, fits => by
    simp only [Items.chars, List.forall_mem_append]
    exact ⟨⟨readable_blanks before, item.readable fits⟩, readable_blanks behind⟩
  | .cons before item behind others, fits => by
    simp only [Items.chars, List.forall_mem_append, List.forall_mem_cons]
    exact ⟨⟨⟨readable_blanks before, item.readable fits.1⟩, readable_blanks behind⟩,
      readable_mark (by decide), others.readable fits.2⟩

theorem Members.readable : (members : Members) → members.FitsYaml →
    ∀ char ∈ members.chars, Readable char
  | .last before key beforeColon behindColon value behind, fits => by
    simp only [Members.chars, List.forall_mem_append, List.forall_mem_cons]
    exact ⟨⟨⟨⟨⟨readable_blanks before, readable_quoted fits.1⟩, readable_blanks beforeColon⟩,
      readable_mark (by decide), readable_blanks behindColon⟩, value.readable fits.2.2⟩,
      readable_blanks behind⟩
  | .cons before key beforeColon behindColon value behind others, fits => by
    simp only [Members.chars, List.forall_mem_append, List.forall_mem_cons]
    exact ⟨⟨⟨⟨⟨⟨readable_blanks before, readable_quoted fits.1⟩, readable_blanks beforeColon⟩,
      readable_mark (by decide), readable_blanks behindColon⟩, value.readable fits.2.2.1⟩,
      readable_blanks behind⟩, readable_mark (by decide), others.readable fits.2.2.2⟩

end

structure Document.FitsYaml (document : Document) : Prop where
  root : document.root.FitsYaml
  before : TabsFit true document.before
  behind : TabsFit false document.behind

theorem Document.readable {document : Document} (fits : document.FitsYaml) :
    ∀ char ∈ document.chars, Readable char := by
  simp only [Document.chars, List.forall_mem_append]
  exact ⟨⟨readable_blanks _, document.root.readable fits.root⟩, readable_blanks _⟩

end Json

namespace Yaml

open Source Json Scanner

theorem clean_ofText {chars : List Char} (readable : ∀ char ∈ chars, Readable char) :
    (Source.ofText (Text.ofChars chars)).Clean ∧
      (Source.ofText (Text.ofChars chars)).rest = chars := by
  have unmarked : byteOrderMark ∉ chars := fun marked => (readable _ marked).2 rfl
  obtain ⟨flatten, complete⟩ := piecesOf_ofChars (fun char member => (readable char member).1)
    fun marked => unmarked (List.mem_of_head? marked)
  constructor
  · constructor <;> simp [Source.ofText, flatten, complete, unmarked]
  · simp [Source.ofText, flatten]

theorem Scanner.scanStreamEnd?_ready {scanner : Scanner} (ready : scanner.Ready) :
    ∃ next line, scanner.scanStreamEnd? = some next ∧
      next.tokens = ⟨.streamEnd, line⟩ :: scanner.tokens ∧ next.source.isOverrun = false := by
  have unwound (source : Source) :
      ({ scanner with source }).unwind (-1) = { scanner with source } :=
    unwind_of_indents (show ({ scanner with source }).indents = [] from ready.indents) (-1)
  have dropped (source : Source) : ({ scanner with source }).dropCandidate? =
      some ({ scanner with source }).forgetCandidate := by
    rw [dropCandidate?, ready.optional scanner.candidate (by simp), Bool.and_false,
      if_neg (by simp)]
  unfold scanStreamEnd?
  dsimp only
  rw [unwound, dropped]
  refine ⟨_, _, rfl, rfl, ?_⟩
  show (if scanner.source.column = 0 then scanner.source else _).isOverrun = false
  split
  · exact ready.clean.inside
  · exact ready.clean.inside

theorem Scanner.step?_end {scanner : Scanner} {signs : List Blank} (ready : scanner.Ready)
    (fit : TabsFit scanner.isKeyAllowed signs) (ahead : scanner.source.rest = blanks signs) :
    ∃ next line, scanner.step? = some next ∧ next.tokens = ⟨.streamEnd, line⟩ :: scanner.tokens ∧
      next.source.isOverrun = false := by
  have enough : signs.length < scanner.source.remaining + 1 := by
    rw [ready.clean.remaining, ahead, blanks, List.length_map]
    exact Nat.lt_succ_self _
  have aheadNil : scanner.source.rest = blanks signs ++ [] := by rw [ahead, List.append_nil]
  obtain ⟨source, isKeyAllowed, moves, skipped, _⟩ :=
    skipToToken_blanks ready.clean (Or.inr fit) aheadNil (by simp [Stops]) enough
  have atEnd : source.rest = [] := moves.rest_eq aheadNil
  have wanted : (source.want 4).rest = [] := by rw [want_rest, atEnd]
  have readyHere : ({ scanner with source := source.want 4, isKeyAllowed }).Ready :=
    { ready with clean := (moves_want source 4).clean (moves.clean ready.clean) }
  obtain ⟨next, line, ended, tokens, inside⟩ := scanStreamEnd?_ready readyHere
  refine ⟨next, line, ?_, tokens, inside⟩
  unfold step?
  rw [skipped]
  dsimp only
  rw [unwind_of_indents (show ({ scanner with source, isKeyAllowed }).indents = [] from
    ready.indents)]
  dsimp only
  rw [wanted]
  exact ended

/-- The tokens of a document are those of its value, and the end of the stream. -/
theorem contents_tokensOf {document : Document} (fits : document.FitsYaml)
    (isCollection : document.root.IsCollection)
    (shallow : document.value.depth ≤ Scanner.greatestDepth) :
    (tokensOf (Text.ofChars document.chars)).map Token.content =
      document.root.contents ++ [.streamEnd] := by
  obtain ⟨clean, rest⟩ := clean_ofText (Document.readable fits)
  have ready : ({ source := Source.ofText (Text.ofChars document.chars) } : Scanner).Ready :=
    ⟨clean, rfl, rfl, by simp, Or.inl rfl⟩
  have ahead : (Source.ofText (Text.ofChars document.chars)).rest =
      blanks document.before ++ (document.root.chars ++ blanks document.behind) := by
    rw [rest, Document.chars, List.append_assoc]
  have clear : Clear (blanks document.behind) := by
    simpa using clear_of_stops (show Stops [] by simp [Stops]) document.behind
  have children : document.root.ChildrenScanned := by
    cases document.root with
    | array items => exact items.scanned
    | object members => exact members.scanned
    | _ => trivial
  obtain ⟨final, scans, atEnd, level, notAllowed⟩ := document.root.scans_collection isCollection
    children ready (Or.inr fits.before) fits.root
    (by simpa [Document.value] using shallow) ahead clear
  obtain ⟨next, line, ended, tokens, inside⟩ := Scanner.step?_end scans.ready
    (by rw [notAllowed]; exact fits.behind) atEnd
  -- the run has more fuel than the text has signs, and takes no more rounds than that
  obtain ⟨count, bound, same⟩ := scans.rounds
  have fuel : ∃ fuel, (Source.ofText (Text.ofChars document.chars)).size + 2 =
      (fuel + 1) + count := by
    have size := clean.size_eq
    dsimp only at bound
    exact ⟨(Source.ofText (Text.ofChars document.chars)).size + 1 - count, by omega⟩
  obtain ⟨fuel, enough⟩ := fuel
  have finished : run (fuel + 1) final = next.tokens.reverse := by
    rw [run_succ, ended]
    dsimp only
    rw [inside, if_neg (by simp), tokens]
  have all : next.contents = .streamEnd :: document.root.contents.reverse := by
    rw [contents, tokens, List.map_cons]
    simpa [contents] using scans.contents
  rw [tokensOf, enough, same, finished, List.map_reverse, ← contents, all]
  simp

end Yaml

end EntitySchema
