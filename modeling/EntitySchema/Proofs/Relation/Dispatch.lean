import EntitySchema.Proofs.Token.Written

/-!
Relations are told from fields twice, by the bytes an expression starts with and by its first
lexeme. The two always agree.
-/

namespace EntitySchema

open Lexer

namespace Relation

def StartsWithArrow (text : Text) : Prop :=
  ∃ blanks arrow rest, text = blanks ++ (arrow ++ rest) ∧ (∀ byte ∈ blanks, byte ∈ blankBytes) ∧
    arrow ∈ Operator.all

theorem startsWith_dropWhile_iff (text : Text) {arrow : Text} (member : arrow ∈ Operator.all) :
    Text.startsWith (text.dropWhile fun byte =>
        byte = 0x20 || byte = 0x09 || byte = 0x0D || byte = 0x0A) arrow = true ↔
      ∃ blanks rest, text = blanks ++ (arrow ++ rest) ∧ ∀ byte ∈ blanks, byte ∈ blankBytes := by
  have blank (byte : Byte) : (byte = 0x20 || byte = 0x09 || byte = 0x0D || byte = 0x0A) = true ↔
      byte ∈ blankBytes := by
    simp [blankBytes, or_assoc]
  rw [Text.startsWith, List.isPrefixOf_iff_prefix]
  constructor
  · rintro ⟨rest, shape⟩
    refine ⟨_, rest, List.takeWhile_append_dropWhile.symm.trans (by rw [shape]), ?_⟩
    intro byte inside
    have passed := List.mem_takeWhile_imp (p := fun byte : Byte =>
      byte = 0x20 || byte = 0x09 || byte = 0x0D || byte = 0x0A) inside
    exact (blank byte).mp passed
  · rintro ⟨blanks, rest, rfl, blanksOnly⟩
    rw [List.dropWhile_append_of_pos fun byte inside => (blank byte).mpr (blanksOnly byte inside)]
    simp only [Operator.all, List.mem_cons, List.not_mem_nil, or_false] at member
    rcases member with rfl | rfl | rfl | rfl <;> exact ⟨rest, rfl⟩

theorem isRelationText_iff (text : Text) :
    isRelationText text = true ↔ StartsWithArrow text := by
  simp only [isRelationText, List.any_eq_true]
  constructor
  · rintro ⟨arrow, member, starts⟩
    obtain ⟨blanks, rest, whole, blanksOnly⟩ := (startsWith_dropWhile_iff text member).mp starts
    exact ⟨blanks, arrow, rest, whole, blanksOnly, member⟩
  · rintro ⟨blanks, arrow, rest, whole, blanksOnly, member⟩
    exact ⟨arrow, member, (startsWith_dropWhile_iff text member).mpr
      ⟨blanks, rest, whole, blanksOnly⟩⟩

theorem charKind_ne_relationOp (char : Char) : charKind char ≠ .relationOp := by
  fun_cases charKind char <;> simp

theorem exists_arrow_of_relationOp {first : Rune} {rest : List Rune}
    (kind : (measure first rest).1 = .relationOp) :
    ∃ second more, rest = second :: more ∧ isArrow first.char second.char = true := by
  obtain ⟨_, same⟩ | ⟨_, same⟩ | ⟨_, same⟩ | ⟨_, same⟩ | ⟨arrow, _⟩ | ⟨_, _, same⟩ :=
    measure_cases first rest
  · simp [same] at kind
  · simp [same] at kind
  · simp [same] at kind
  · rcases nameKind_cases (first :: rest.takeWhile continuesName) with isName | isName <;>
      simp [same, isName] at kind
  · cases rest with
    | nil => simp [nextIs] at arrow
    | cons second more => exact ⟨second, more, rfl, arrow⟩
  · rw [same] at kind
    exact absurd kind (charKind_ne_relationOp first.char)

theorem mem_operators {first second : Rune} (firstRead : first.IsRead) (secondRead : second.IsRead)
    (arrow : isArrow first.char second.char = true) :
    first.bytes ++ second.bytes ∈ Operator.all := by
  have spelled (headByte tipByte : Byte) {head tip : Char} (isHead : first.char = head)
      (isTip : second.char = tip) (ascii : headByte < 0x80 ∧ tipByte < 0x80)
      (codes : head.toNat = headByte.toNat ∧ tip.toNat = tipByte.toNat) :
      first.bytes ++ second.bytes = [headByte, tipByte] := by
    rw [bytes_eq_singleton firstRead isHead ascii.1 codes.1,
      bytes_eq_singleton secondRead isTip ascii.2 codes.2, List.singleton_append]
  simp only [isArrow, Bool.or_eq_true, Bool.and_eq_true, decide_eq_true_eq] at arrow
  rcases arrow with ((⟨head, tip⟩ | ⟨head, tip⟩) | ⟨head, tip⟩) | ⟨head, tip⟩
  · rw [spelled 0x2D 0x3E head tip (by decide) (by decide)]
    decide
  · rw [spelled 0x7E 0x3E head tip (by decide) (by decide)]
    decide
  · rw [spelled 0x3C 0x2D head tip (by decide) (by decide)]
    decide
  · rw [spelled 0x3C 0x7E head tip (by decide) (by decide)]
    decide

theorem startsWithArrow_of_relationOp {text : Text} {first : Lexeme} {others : List Lexeme}
    (shape : lexemes text.runes = first :: others) (kind : first.kind = .relationOp) :
    StartsWithArrow text := by
  have reads : ∀ rune ∈ text.runes, rune.IsRead := fun rune => Text.isRead_of_mem_runes
  have whole := List.takeWhile_append_dropWhile (p := isBlank) (l := text.runes)
  have blanks : ∀ rune ∈ text.runes.takeWhile isBlank, isBlank rune = true :=
    fun rune member => List.mem_takeWhile_imp member
  cases split : text.runes.dropWhile isBlank with
  | nil => simp [lexemes_of_blank split] at shape
  | cons head rest =>
      rw [lexemes_of_token split, List.cons.injEq] at shape
      obtain ⟨rfl, _⟩ := shape
      obtain ⟨second, more, rfl, arrow⟩ := exists_arrow_of_relationOp kind
      rw [split] at whole
      refine ⟨Rune.spell (text.runes.takeWhile isBlank), head.bytes ++ second.bytes,
        Rune.spell more, ?_, ?_, ?_⟩
      · have bytes := congrArg Rune.spell whole
        rw [Text.spell_runes] at bytes
        exact bytes.symm.trans (by simp)
      · intro byte member
        exact Segments.blank_bytes (fun rune inside =>
          reads rune ((List.takeWhile_prefix _).mem inside)) blanks member
      · have inside : head ∈ text.runes ∧ second ∈ text.runes := by
          rw [← whole]
          simp
        exact mem_operators (reads head inside.1) (reads second inside.2) arrow

/-- The bytes at the start of an expression and its first lexeme tell the same. -/
theorem isRelationText_iff_lexemes (text : Text) :
    isRelationText text = true ↔
      ∃ first others, lexemes text.runes = first :: others ∧ first.kind = .relationOp := by
  rw [isRelationText_iff]
  constructor
  · rintro ⟨blanks, arrow, rest, rfl, blanksOnly, member⟩
    refine ⟨⟨.relationOp, arrow⟩, lexemes rest.runes, ?_, rfl⟩
    rw [lexemes_of_blanks_append blanksOnly, lexemes_arrow member]
  · rintro ⟨first, others, shape, kind⟩
    exact startsWithArrow_of_relationOp shape kind

end Relation

end EntitySchema
