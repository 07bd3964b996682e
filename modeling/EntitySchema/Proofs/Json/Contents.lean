import EntitySchema.Proofs.Json.Token

/-!
The tokens of a JSON document. A value is read into its tokens in the order of its signs, with the
mark of a key in front of the key, and leaves the levels around it as they were.
-/

namespace EntitySchema

open Yaml

namespace Json

mutual

def Written.FitsYaml : Written → Prop
  | .number text _ => Binary.readDouble? text ≠ none
  | .string signs => ∀ sign ∈ signs, sign.FitsYaml
  | .array items => items.FitsYaml
  | .object members => members.FitsYaml
  | _ => True

def Items.FitsYaml : Items → Prop
  | .last _ item _ => item.FitsYaml
  | .cons _ item _ others => item.FitsYaml ∧ others.FitsYaml

def Members.FitsYaml : Members → Prop
  | .last _ key beforeColon _ value _ =>
    (∀ sign ∈ key, sign.FitsYaml) ∧ KeyFits key beforeColon ∧ value.FitsYaml
  | .cons _ key beforeColon _ value _ others =>
    (∀ sign ∈ key, sign.FitsYaml) ∧ KeyFits key beforeColon ∧ value.FitsYaml ∧ others.FitsYaml

end

mutual

def Written.contents : Written → List TokenContent
  | .null => [.scalar (utf8 "null") .plain]
  | .boolean value => [.scalar (ofBool value) .plain]
  | .number text _ => [.scalar text .plain]
  | .string signs => [.scalar (Sign.textOf signs) .doubleQuoted]
  | .emptyArray _ => [.flowSequenceStart, .flowSequenceEnd]
  | .array items => .flowSequenceStart :: items.contents ++ [.flowSequenceEnd]
  | .emptyObject _ => [.flowMappingStart, .flowMappingEnd]
  | .object members => .flowMappingStart :: members.contents ++ [.flowMappingEnd]

def Items.contents : Items → List TokenContent
  | .last _ item _ => item.contents
  | .cons _ item _ others => item.contents ++ .flowEntry :: others.contents

def Members.contents : Members → List TokenContent
  | .last _ key _ _ value _ =>
    .key :: .scalar (Sign.textOf key) .doubleQuoted :: .value :: value.contents
  | .cons _ key _ _ value _ others =>
    .key :: .scalar (Sign.textOf key) .doubleQuoted :: .value ::
      (value.contents ++ .flowEntry :: others.contents)

end

def words : List Text := [utf8 "null", utf8 "true", utf8 "false"]

theorem ofBool_mem_words (value : Bool) : ofBool value ∈ words := by
  cases value <;> decide

theorem ascii_of_word {word : Text} (isWord : word ∈ words) : ∀ byte ∈ word, byte < 0x80 := by
  simp only [words, List.mem_cons, List.not_mem_nil, or_false] at isWord
  rcases isWord with rfl | rfl | rfl <;> exact forall_mem_of_all (by decide)

theorem Written.opens (written : Written) (rest : List Char) :
    ∃ char others, written.chars ++ rest = char :: others ∧ Opens char others := by
  have mark {char : Char} (mark : char ∈ Scanner.marks) (others : List Char) :
      ∃ first tail, char :: others = first :: tail ∧ Opens first tail :=
    ⟨char, others, rfl, Scanner.opens_of_mark mark others⟩
  have plain {word : List Char} (plain : Scalar.IsPlainWord word) :
      ∃ first tail, word ++ rest = first :: tail ∧ Opens first tail := by
    obtain ⟨char, others, same, opens, _⟩ := Scanner.exists_plain plain rest
    exact ⟨char, others, same, opens⟩
  cases written with
  | null => exact plain (.ofWord (by decide))
  | boolean value => exact plain (.ofWord (ofBool_mem_words value))
  | number text isNumber => exact plain (.ofNumber isNumber)
  | string signs => exact mark (by decide) _
  | emptyArray inside => exact mark (by decide) _
  | array items => exact mark (by decide) _
  | emptyObject inside => exact mark (by decide) _
  | object members => exact mark (by decide) _

theorem Written.clear (written : Written) (signs : List Blank) (rest : List Char) :
    Clear (blanks signs ++ (written.chars ++ rest)) := by
  obtain ⟨char, others, same, opens⟩ := written.opens rest
  rw [same]
  exact clear_of_stops opens.stops signs

theorem Items.clear (items : Items) (rest : List Char) : Clear (items.chars ++ rest) := by
  cases items with
  | last before item behind =>
      simp only [Items.chars, List.append_assoc]
      exact item.clear before _
  | cons before item behind others =>
      simp only [Items.chars, List.append_assoc]
      exact item.clear before _

theorem Members.clear (members : Members) (rest : List Char) : Clear (members.chars ++ rest) := by
  have key (before : List Blank) (rest : List Char) : Clear (blanks before ++ '"' :: rest) :=
    clear_of_stops (Scanner.opens_of_mark (by decide) rest).stops before
  cases members with
  | last before name beforeColon behindColon value behind =>
      simp only [Members.chars, Sign.quoted, List.append_assoc, List.cons_append]
      exact key before _
  | cons before name beforeColon behindColon value behind others =>
      simp only [Members.chars, Sign.quoted, List.append_assoc, List.cons_append]
      exact key before _

def Written.Scanned (written : Written) : Prop :=
  ∀ (scanner : Scanner) (signs behind : List Blank) (next : Char) (rest : List Char),
    scanner.Ready → scanner.isInFlow = true → written.FitsYaml →
    scanner.enclosing.length + written.value.depth ≤ Scanner.greatestDepth →
    Scalar.EndsItem next →
    scanner.source.rest = blanks signs ++ (written.chars ++ (blanks behind ++ next :: rest)) →
    ∃ final left, scanner.Scans written.contents final ∧
      final.source.rest = blanks left ++ next :: rest ∧ final.enclosing = scanner.enclosing

def Items.Scanned (items : Items) : Prop :=
  ∀ (scanner : Scanner) (rest : List Char), scanner.Ready → scanner.isInFlow = true →
    items.FitsYaml → scanner.enclosing.length + itemsDepth items.values ≤ Scanner.greatestDepth →
    scanner.source.rest = items.chars ++ ']' :: rest →
    ∃ final left, scanner.Scans items.contents final ∧
      final.source.rest = blanks left ++ ']' :: rest ∧ final.enclosing = scanner.enclosing

def Members.Scanned (members : Members) : Prop :=
  ∀ (scanner : Scanner) (rest : List Char), scanner.Ready → scanner.isInFlow = true →
    scanner.isKeyAllowed = true → members.FitsYaml →
    scanner.enclosing.length + membersDepth members.pairs ≤ Scanner.greatestDepth →
    scanner.source.rest = members.chars ++ Char.ofNat 0x7D :: rest →
    ∃ final left, scanner.Scans members.contents final ∧
      final.source.rest = blanks left ++ Char.ofNat 0x7D :: rest ∧
      final.enclosing = scanner.enclosing

theorem scans_brackets {scanner : Scanner} {signs : List Blank} {inside tail : List Char}
    (brackets : Scanner.Brackets) (contents : List TokenContent) (ready : scanner.Ready)
    (fit : scanner.isInFlow = true ∨ TabsFit scanner.isKeyAllowed signs)
    (kind : brackets ∈ [Scanner.Brackets.square, Scanner.Brackets.curly])
    (ahead : scanner.source.rest =
      blanks signs ++ brackets.opening :: (inside ++ brackets.closing :: tail))
    (clearInside : Clear (inside ++ brackets.closing :: tail)) (clear : Clear tail)
    (shallow : scanner.enclosing.length < Scanner.greatestDepth)
    (reads : ∀ middle : Scanner, middle.Ready → middle.isInFlow = true →
      middle.isKeyAllowed = true → middle.enclosing.length = scanner.enclosing.length + 1 →
      middle.source.rest = inside ++ brackets.closing :: tail →
      ∃ final left, middle.Scans contents final ∧
        final.source.rest = blanks left ++ brackets.closing :: tail ∧
        final.enclosing = middle.enclosing) :
    ∃ final, scanner.Scans (brackets.start :: contents ++ [brackets.finish]) final ∧
      final.source.rest = tail ∧ final.enclosing = scanner.enclosing ∧
      final.isKeyAllowed = false := by
  obtain ⟨first, outer, opened, atInside, level, allowed⟩ :=
    Scanner.scans_opening ready fit kind ahead clearInside shallow
  obtain ⟨second, left, read, atClosing, same⟩ := reads first opened.ready
    (Scanner.isInFlow_of_enclosing level) allowed (by rw [level]; rfl) atInside
  obtain ⟨final, closed, atTail, outside, notAllowed⟩ :=
    Scanner.scans_closing read.ready (same.trans level) kind atClosing clear
  exact ⟨final, (opened.trans read).trans closed, atTail, outside, notAllowed⟩

def Written.ChildrenScanned : Written → Prop
  | .array items => items.Scanned
  | .object members => members.Scanned
  | _ => True

def Written.IsCollection : Written → Prop
  | .emptyArray _ => True
  | .array _ => True
  | .emptyObject _ => True
  | .object _ => True
  | _ => False

theorem Written.scans_collection {written : Written} (isCollection : written.IsCollection)
    (children : written.ChildrenScanned) {scanner : Scanner} {signs : List Blank}
    {tail : List Char} (ready : scanner.Ready)
    (fit : scanner.isInFlow = true ∨ TabsFit scanner.isKeyAllowed signs)
    (fits : written.FitsYaml)
    (shallow : scanner.enclosing.length + written.value.depth ≤ Scanner.greatestDepth)
    (ahead : scanner.source.rest = blanks signs ++ (written.chars ++ tail)) (clear : Clear tail) :
    ∃ final, scanner.Scans written.contents final ∧ final.source.rest = tail ∧
      final.enclosing = scanner.enclosing ∧ final.isKeyAllowed = false := by
  cases written with
  | emptyArray inside =>
      have ahead' : scanner.source.rest =
          blanks signs ++ '[' :: (blanks inside ++ ']' :: tail) := by
        simpa [Written.chars] using ahead
      have stops := (Scanner.opens_of_mark (show ']' ∈ Scanner.marks by decide) tail).stops
      refine scans_brackets .square [] ready fit (by simp) ahead'
        (clear_of_stops stops inside) clear ?_ fun middle ready _ _ _ ahead =>
          ⟨middle, inside, .refl ready, ahead, rfl⟩
      simp only [Written.value, depth] at shallow
      omega
  | array items =>
      have ahead' : scanner.source.rest = blanks signs ++ '[' :: (items.chars ++ ']' :: tail) := by
        simpa [Written.chars] using ahead
      simp only [Written.value, depth] at shallow
      refine scans_brackets .square _ ready fit (by simp) ahead' (items.clear _) clear
        (by omega) fun middle ready inFlow _ level ahead => ?_
      exact children middle tail ready inFlow fits (by omega) ahead
  | emptyObject inside =>
      have ahead' : scanner.source.rest =
          blanks signs ++ Char.ofNat 0x7B :: (blanks inside ++ Char.ofNat 0x7D :: tail) := by
        simpa [Written.chars] using ahead
      have stops :=
        (Scanner.opens_of_mark (show Char.ofNat 0x7D ∈ Scanner.marks by decide) tail).stops
      refine scans_brackets .curly [] ready fit (by simp) ahead'
        (clear_of_stops stops inside) clear ?_ fun middle ready _ _ _ ahead =>
          ⟨middle, inside, .refl ready, ahead, rfl⟩
      simp only [Written.value, depth] at shallow
      omega
  | object members =>
      have ahead' : scanner.source.rest =
          blanks signs ++ Char.ofNat 0x7B :: (members.chars ++ Char.ofNat 0x7D :: tail) := by
        simpa [Written.chars] using ahead
      simp only [Written.value, depth] at shallow
      refine scans_brackets .curly _ ready fit (by simp) ahead' (members.clear _) clear
        (by omega) fun middle ready inFlow allowed level ahead => ?_
      exact children middle tail ready inFlow allowed fits (by omega) ahead
  | null => exact isCollection.elim
  | boolean value => exact isCollection.elim
  | number text isNumber => exact isCollection.elim
  | string signs => exact isCollection.elim

theorem scanned_word {text : Text} (plain : Scalar.IsPlainWord (asciiChars text))
    (ascii : ∀ byte ∈ text, byte < 0x80) {written : Written}
    (spelled : written.chars = asciiChars text)
    (contents : written.contents = [.scalar text .plain]) : written.Scanned := by
  intro scanner signs behind next rest ready inFlow _ _ ends ahead
  rw [spelled] at ahead
  obtain ⟨final, scans, atNext, level⟩ := Scanner.scans_word ready inFlow plain ends ahead
  rw [ofChars_asciiChars ascii] at scans
  exact ⟨final, [], contents ▸ scans, atNext, level⟩

theorem scanned_string (string : List Sign) : (Written.string string).Scanned := by
  intro scanner signs behind next rest ready inFlow fits _ ends ahead
  have stops : Stops (next :: rest) := ends.stops rest
  obtain ⟨final, scans, atNext, level, _⟩ :=
    Scanner.scans_string ready inFlow fits ahead (clear_of_stops stops behind)
  exact ⟨final, behind, scans, atNext, level⟩

theorem scanned_collection {written : Written} (isCollection : written.IsCollection)
    (children : written.ChildrenScanned) : written.Scanned := by
  intro scanner signs behind next rest ready inFlow fits shallow ends ahead
  obtain ⟨final, scans, atNext, level, _⟩ := written.scans_collection isCollection children ready
    (Or.inl inFlow) fits shallow ahead (clear_of_stops (ends.stops rest) behind)
  exact ⟨final, behind, scans, atNext, level⟩

theorem scanned_lastItem {item : Written} (before behind : List Blank) (scanned : item.Scanned) :
    (Items.last before item behind).Scanned := by
  intro scanner rest ready inFlow fits shallow ahead
  simp only [Items.values, itemsDepth] at shallow
  exact scanned scanner before behind ']' rest ready inFlow fits (by omega)
    (by simp [Scalar.EndsItem]) (by simpa [Items.chars] using ahead)

theorem scanned_item {item : Written} {others : Items} (before behind : List Blank)
    (scanned : item.Scanned) (scannedOthers : others.Scanned) :
    (Items.cons before item behind others).Scanned := by
  intro scanner rest ready inFlow fits shallow ahead
  simp only [Items.values, itemsDepth] at shallow
  obtain ⟨first, left, read, atComma, level⟩ := scanned scanner before behind ',' _ ready inFlow
    fits.1 (by omega) (by simp [Scalar.EndsItem]) (by simpa [Items.chars] using ahead)
  have firstFlow := Scanner.isInFlow_of_eq inFlow level
  obtain ⟨second, comma, atOthers, level', _⟩ :=
    Scanner.scans_comma read.ready firstFlow atComma (others.clear _)
  have secondFlow := Scanner.isInFlow_of_eq firstFlow level'
  obtain ⟨final, left, readOthers, atEnd, level''⟩ := scannedOthers second rest comma.ready
    secondFlow fits.2 (by rw [level', level]; omega) atOthers
  refine ⟨final, left, ?_, atEnd, level''.trans (level'.trans level)⟩
  simpa [Items.contents] using (read.trans comma).trans readOthers

theorem scans_member {scanner : Scanner} {key : List Sign}
    {before beforeColon behindColon behind : List Blank} {value : Written} {next : Char}
    {rest : List Char} (scanned : value.Scanned) (ready : scanner.Ready)
    (inFlow : scanner.isInFlow = true) (allowed : scanner.isKeyAllowed = true)
    (keyFits : ∀ sign ∈ key, sign.FitsYaml) (near : KeyFits key beforeColon)
    (fits : value.FitsYaml)
    (shallow : scanner.enclosing.length + value.value.depth ≤ Scanner.greatestDepth)
    (ends : Scalar.EndsItem next)
    (ahead : scanner.source.rest = blanks before ++ (Sign.quoted key ++ (blanks beforeColon ++
      ':' :: (blanks behindColon ++ (value.chars ++ (blanks behind ++ next :: rest)))))) :
    ∃ final left,
      scanner.Scans
        (.key :: .scalar (Sign.textOf key) .doubleQuoted :: .value :: value.contents) final ∧
      final.source.rest = blanks left ++ next :: rest ∧ final.enclosing = scanner.enclosing := by
  obtain ⟨middle, readKey, atValue, level⟩ := Scanner.scans_key ready inFlow allowed keyFits near
    ahead (value.clear behindColon _)
  have middleFlow := Scanner.isInFlow_of_eq inFlow level
  obtain ⟨final, left, readValue, atNext, level'⟩ := scanned middle behindColon behind next rest
    readKey.ready middleFlow fits (by rw [level]; exact shallow) ends atValue
  exact ⟨final, left, readKey.trans readValue, atNext, level'.trans level⟩

theorem scanned_lastMember {key : List Sign} {value : Written}
    (before beforeColon behindColon behind : List Blank) (scanned : value.Scanned) :
    (Members.last before key beforeColon behindColon value behind).Scanned := by
  intro scanner rest ready inFlow allowed fits shallow ahead
  simp only [Members.pairs, membersDepth] at shallow
  exact scans_member scanned ready inFlow allowed fits.1 fits.2.1 fits.2.2 (by omega)
    (by simp [Scalar.EndsItem]) (by simpa [Members.chars] using ahead)

theorem scanned_member {key : List Sign} {value : Written} {others : Members}
    (before beforeColon behindColon behind : List Blank) (scanned : value.Scanned)
    (scannedOthers : others.Scanned) :
    (Members.cons before key beforeColon behindColon value behind others).Scanned := by
  intro scanner rest ready inFlow allowed fits shallow ahead
  simp only [Members.pairs, membersDepth] at shallow
  obtain ⟨first, left, read, atComma, level⟩ := scans_member scanned ready inFlow allowed fits.1
    fits.2.1 fits.2.2.1 (by omega) (show Scalar.EndsItem ',' by simp [Scalar.EndsItem])
    (by simpa [Members.chars] using ahead)
  have firstFlow := Scanner.isInFlow_of_eq inFlow level
  obtain ⟨second, comma, atOthers, level', allowed'⟩ :=
    Scanner.scans_comma read.ready firstFlow atComma (others.clear _)
  have secondFlow := Scanner.isInFlow_of_eq firstFlow level'
  obtain ⟨final, left, readOthers, atEnd, level''⟩ := scannedOthers second rest comma.ready
    secondFlow allowed' fits.2.2.2 (by rw [level', level]; omega) atOthers
  refine ⟨final, left, ?_, atEnd, level''.trans (level'.trans level)⟩
  simpa [Members.contents] using (read.trans comma).trans readOthers

mutual

theorem Written.scanned : (written : Written) → written.Scanned
  | .null => scanned_word (.ofWord (by decide)) (ascii_of_word (by decide)) rfl rfl
  | .boolean value =>
    scanned_word (.ofWord (ofBool_mem_words value)) (ascii_of_word (ofBool_mem_words value)) rfl rfl
  | .number _ isNumber => scanned_word (.ofNumber isNumber) isNumber.ascii rfl rfl
  | .string signs => scanned_string signs
  | .emptyArray _ => scanned_collection trivial trivial
  | .array items => scanned_collection trivial items.scanned
  | .emptyObject _ => scanned_collection trivial trivial
  | .object members => scanned_collection trivial members.scanned

theorem Items.scanned : (items : Items) → items.Scanned
  | .last before item behind => scanned_lastItem before behind item.scanned
  | .cons before item behind others => scanned_item before behind item.scanned others.scanned

theorem Members.scanned : (members : Members) → members.Scanned
  | .last before _ beforeColon behindColon value behind =>
    scanned_lastMember before beforeColon behindColon behind value.scanned
  | .cons before _ beforeColon behindColon value behind others =>
    scanned_member before beforeColon behindColon behind value.scanned others.scanned

end

end Json

end EntitySchema
