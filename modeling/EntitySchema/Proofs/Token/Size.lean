import EntitySchema.Proofs.Number.Numeral
import EntitySchema.Proofs.Token.Prefix
import EntitySchema.Proofs.Token.Segmentation

/-!
How many bytes the lexemes of a text have. Together they are the text without the blanks between
them, and each of them has a spelling that its kind allows.
-/

namespace EntitySchema

open Text

namespace Lexer

def spelling (lexemes : List Lexeme) : Text := lexemes.flatMap Lexeme.text

@[simp]
theorem spelling_nil : spelling [] = [] := rfl

@[simp]
theorem spelling_cons (lexeme : Lexeme) (lexemes : List Lexeme) :
    spelling (lexeme :: lexemes) = lexeme.text ++ spelling lexemes := rfl

@[simp]
theorem spelling_append (left right : List Lexeme) :
    spelling (left ++ right) = spelling left ++ spelling right := List.flatMap_append

def isVisible (byte : Byte) : Bool := decide (byte ∉ blankBytes)

theorem filter_isVisible_blanks {blanks : List Rune} (reads : ∀ rune ∈ blanks, rune.IsRead)
    (blank : ∀ rune ∈ blanks, isBlank rune = true) :
    (Rune.spell blanks).filter isVisible = [] := by
  rw [List.filter_eq_nil_iff]
  intro byte member
  have inside := Segments.blank_bytes reads blank member
  simp [isVisible, inside]

theorem spelling_lexemes {runes : List Rune} (reads : ∀ rune ∈ runes, rune.IsRead) :
    (spelling (lexemes runes)).Sublist (Rune.spell runes) ∧
      (spelling (lexemes runes)).filter isVisible = (Rune.spell runes).filter isVisible := by
  induction runes using runes_induction with
  | blank runes blank =>
      rw [lexemes_of_blanks blank, filter_isVisible_blanks reads blank]
      exact ⟨List.nil_sublist _, rfl⟩
  | token blanks first rest blank visible ih =>
      rw [List.forall_mem_append, List.forall_mem_cons] at reads
      obtain ⟨blankReads, _, restReads⟩ := reads
      obtain ⟨sublist, same⟩ := ih fun rune member => restReads rune (List.mem_of_mem_drop member)
      have whole : Rune.spell (blanks ++ first :: rest) = Rune.spell blanks ++
          (Rune.spell (first :: rest.take (measure first rest).2) ++
            Rune.spell (rest.drop (measure first rest).2)) := by
        rw [← Rune.spell_append, ← Rune.spell_append, List.cons_append, List.take_append_drop]
      rw [lexemes_of_blanks_cons blank visible, spelling_cons, whole]
      constructor
      · exact (sublist.append_left _).trans (List.sublist_append_right _ _)
      · rw [List.filter_append, List.filter_append, List.filter_append,
          filter_isVisible_blanks blankReads blank, same, List.nil_append]

theorem length_spelling_le (text : Text) :
    (spelling (lexemes text.runes)).length ≤ text.length := by
  have sublist := (spelling_lexemes fun rune (member : rune ∈ text.runes) =>
    isRead_of_mem_runes member).1
  rw [spell_runes] at sublist
  exact sublist.length_le

theorem length_pos_of_mem {text : Text} {lexeme : Lexeme} (member : lexeme ∈ lexemes text.runes) :
    1 ≤ lexeme.text.length := by
  obtain ⟨front, first, rest, whole, _, rfl⟩ := exists_measure_of_mem member
  have read : first.IsRead := isRead_of_mem_runes (by rw [whole]; simp)
  have some := List.length_pos_iff.mpr read.bytes_ne_nil
  rw [Rune.spell_cons, List.length_append]
  omega

section Marks

def relationMarks : List (Byte × TokenKind) := [(0x5B, .lBracket), (0x5D, .rBracket), (0x2E, .dot)]

theorem charKind_eq_mark {char : Char} {byte : Byte} {kind : TokenKind}
    (mark : (byte, kind) ∈ relationMarks) (found : charKind char = kind) :
    char.toNat = byte.toNat := by
  revert found
  simp only [relationMarks, List.mem_cons, List.not_mem_nil, or_false, Prod.mk.injEq] at mark
  rcases mark with ⟨rfl, rfl⟩ | ⟨rfl, rfl⟩ | ⟨rfl, rfl⟩ <;> fun_cases charKind char <;> simp_all

theorem text_of_mark {text : Text} {lexeme : Lexeme} (member : lexeme ∈ lexemes text.runes)
    {byte : Byte} (mark : (byte, lexeme.kind) ∈ relationMarks) : lexeme.text = [byte] := by
  obtain ⟨front, first, rest, whole, _, rfl⟩ := exists_measure_of_mem member
  have read : first.IsRead := isRead_of_mem_runes (by rw [whole]; simp)
  obtain ⟨_, same⟩ | ⟨_, same⟩ | ⟨_, same⟩ | ⟨_, same⟩ | ⟨_, same⟩ | ⟨_, _, same⟩ :=
    measure_cases first rest
  · simp [same, relationMarks] at mark
  · simp [same, relationMarks] at mark
  · simp [same, relationMarks] at mark
  · rcases nameKind_cases (first :: rest.takeWhile continuesName) with isName | isName <;>
      simp [same, isName, relationMarks] at mark
  · simp [same, relationMarks] at mark
  · have ascii : byte < 0x80 := by
      have all : ∀ mark ∈ relationMarks, mark.1 < 0x80 := forall_mem_of_all (by decide)
      exact all _ mark
    rw [same] at mark
    rw [same, List.take_zero, Rune.spell_cons, Rune.spell_nil, List.append_nil,
      read.eq_ofByte ascii (charKind_eq_mark mark rfl)]
    rfl

theorem isVisible_of_high {byte : Byte} (high : 0x80 ≤ byte) : isVisible byte = true := by
  rw [isVisible, decide_eq_true_iff]
  intro inside
  exact absurd high (UInt8.not_le.mpr (isBlank_of_mem_blankBytes inside).1)

theorem isVisible_of_name {text : Text} (isName : IsName text) :
    ∀ byte ∈ text, isVisible byte = true := by
  obtain ⟨first, rest, shape, starts, continued⟩ := isName.runes_shape
  have visible : ∀ rune ∈ text.runes, isBlank rune = false := by
    rw [shape, List.forall_mem_cons]
    refine ⟨(startsName_cases starts).1, fun rune member => ?_⟩
    have continues := continued rune member
    simp only [Lexer.isBlank, Bool.or_eq_false_iff, decide_eq_false_iff_not]
    refine ⟨⟨⟨?_, ?_⟩, ?_⟩, ?_⟩ <;> intro same <;>
      simp [continuesName, same, isLetter, isDecimalDigit] at continues
  intro byte member
  rw [← spell_runes text] at member
  obtain ⟨rune, inside, spelled⟩ := List.mem_flatMap.mp member
  obtain ⟨other, ascii, rfl⟩ | ⟨_, _, high⟩ := (isRead_of_mem_runes inside).cases
  · obtain rfl := List.mem_singleton.mp spelled
    have notBlank := visible _ inside
    rw [isVisible, decide_eq_true_iff]
    intro blank
    have isBlank := (isBlank_of_mem_blankBytes blank).2
    rw [notBlank] at isBlank
    contradiction
  · exact isVisible_of_high (high byte spelled)

end Marks

section Numbers

theorem exists_digit {rune : Rune} (read : rune.IsRead) (digit : isDigit rune = true) :
    ∃ byte, isAsciiDigit byte = true ∧ rune.bytes = [byte] := by
  obtain ⟨byte, ascii, rfl⟩ | ⟨high, _, _⟩ := read.cases
  · exact ⟨byte, (isDigit_ofByte ascii).symm.trans digit, rfl⟩
  · simp only [isDigit, Char.isDigit, Bool.and_eq_true, decide_eq_true_eq,
      UInt32.le_iff_toNat_le] at digit
    have bound : rune.char.toNat ≤ 0x39 := digit.2
    omega

theorem spell_digits {digits : List Rune} (reads : ∀ rune ∈ digits, rune.IsRead)
    (all : ∀ rune ∈ digits, isDigit rune = true) (some : digits ≠ []) :
    (Rune.spell digits).IsDigits := by
  refine ⟨fun empty => some (Rune.spell_eq_nil reads empty), ?_⟩
  intro byte member
  obtain ⟨rune, inside, spelled⟩ := List.mem_flatMap.mp member
  obtain ⟨digit, isDigit, same⟩ := exists_digit (reads rune inside) (all rune inside)
  rw [same, List.mem_singleton] at spelled
  exact spelled ▸ isDigit

theorem exists_fraction (rest : List Rune) : ∃ fraction,
    rest.take (numberSize rest) = rest.takeWhile isDigit ++ fraction ∧ (fraction = [] ∨
      ∃ point digits, fraction = point :: digits ∧ point.char = '.' ∧ digits ≠ [] ∧
        ∀ rune ∈ digits, isDigit rune = true) := by
  refine ⟨(rest.dropWhile isDigit).take (fractionSize (rest.dropWhile isDigit)), ?_, ?_⟩
  · have split := List.takeWhile_append_dropWhile (p := isDigit) (l := rest)
    rw [numberSize]
    generalize rest.takeWhile isDigit = digits at split ⊢
    generalize rest.dropWhile isDigit = behind at split ⊢
    rw [← split, List.take_length_add_append]
  · cases rest.dropWhile isDigit with
    | nil => exact Or.inl rfl
    | cons point more =>
        rw [fractionSize_cons]
        split
        next dotted =>
          simp only [Bool.and_eq_true, decide_eq_true_eq] at dotted
          have taken : more.take (more.takeWhile isDigit).length = more.takeWhile isDigit :=
            (List.prefix_iff_eq_take.mp (List.takeWhile_prefix _)).symm
          right
          refine ⟨point, more.takeWhile isDigit, ?_, dotted.1,
            List.length_pos_iff.mp (takeWhile_pos dotted.2), fun rune member =>
              List.mem_takeWhile_imp member⟩
          rw [List.take_succ_cons, taken]
        next => simp

theorem isUnsigned_spell {whole fraction : List Rune} (reads : ∀ rune ∈ whole ++ fraction,
    rune.IsRead) (all : ∀ rune ∈ whole, isDigit rune = true) (some : whole ≠ [])
    (dotted : fraction = [] ∨ ∃ point digits, fraction = point :: digits ∧ point.char = '.' ∧
      digits ≠ [] ∧ ∀ rune ∈ digits, isDigit rune = true) :
    Decimal.IsUnsigned (Rune.spell (whole ++ fraction)) := by
  rw [List.forall_mem_append] at reads
  have wholeDigits := spell_digits reads.1 all some
  rcases dotted with rfl | ⟨point, digits, rfl, dot, more, allDigits⟩
  · rw [List.append_nil]
    exact .whole wholeDigits
  · rw [List.forall_mem_cons] at reads
    have bytes : point.bytes = [0x2E] := bytes_eq_singleton reads.2.1 dot (by decide) rfl
    rw [Rune.spell_append, Rune.spell_cons, bytes, List.singleton_append]
    exact .fraction wholeDigits (spell_digits reads.2.2 allDigits more)

theorem charKind_ne_number (char : Char) : charKind char ≠ .number := by
  fun_cases charKind char <;> simp

theorem isNumeral_of_mem {text : Text} {lexeme : Lexeme} (member : lexeme ∈ lexemes text.runes)
    (kind : lexeme.kind = .number) : Decimal.IsNumeral lexeme.text := by
  obtain ⟨front, first, rest, whole, _, rfl⟩ := exists_measure_of_mem member
  have reads : ∀ rune ∈ first :: rest, rune.IsRead := fun rune inside =>
    isRead_of_mem_runes (by rw [whole]; exact List.mem_append_right _ inside)
  obtain ⟨_, same⟩ | ⟨digit, same⟩ | ⟨_, same⟩ | ⟨_, same⟩ | ⟨_, same⟩ | ⟨_, _, same⟩ :=
    measure_cases first rest
  · simp [same] at kind
  · rw [same]
    have takenReads : ∀ rune ∈ rest.take (numberSize rest), rune.IsRead := fun rune inside =>
      reads rune (List.mem_cons_of_mem _ (List.mem_of_mem_take inside))
    obtain ⟨fraction, taken, dotted⟩ := exists_fraction rest
    rw [taken] at takenReads ⊢
    have restDigits : ∀ rune ∈ rest.takeWhile isDigit, isDigit rune = true :=
      fun rune inside => List.mem_takeWhile_imp inside
    rcases digit with isDigit | ⟨minus, next⟩
    · have unsigned : Decimal.IsUnsigned
          (Rune.spell ((first :: rest.takeWhile Lexer.isDigit) ++ fraction)) :=
        isUnsigned_spell (List.forall_mem_cons.mpr ⟨reads first (by simp), takenReads⟩)
          (List.forall_mem_cons.mpr ⟨isDigit, restDigits⟩) (by simp) dotted
      exact .positive unsigned
    · have bytes : first.bytes = [0x2D] :=
        bytes_eq_singleton (reads first (by simp)) minus (by decide) rfl
      rw [Rune.spell_cons, bytes, List.singleton_append]
      exact .negative (isUnsigned_spell takenReads restDigits
        (List.length_pos_iff.mp (takeWhile_pos next)) dotted)
  · simp [same] at kind
  · rcases nameKind_cases (first :: rest.takeWhile continuesName) with isName | isName <;>
      simp [same, isName] at kind
  · simp [same] at kind
  · rw [same] at kind
    exact absurd kind (charKind_ne_number _)

end Numbers

end Lexer

end EntitySchema
