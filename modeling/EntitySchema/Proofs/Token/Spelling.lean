import EntitySchema.Field.Parse
import EntitySchema.Proofs.Token.Lexemes

/-!
How lexemes are spelled. A modifier is one of three characters, and a lexeme whose text is a
whole number can only have been read as a number.
-/

namespace EntitySchema

open Lexer

structure Lexeme.Proper (lexeme : Lexeme) : Prop where
  modifier : lexeme.kind = .modifier →
    lexeme.text = utf8 "!" ∨ lexeme.text = utf8 "?" ∨ lexeme.text = utf8 "#"
  integer : ∀ {value}, readInteger? lexeme.text = some value → lexeme.kind = .number

namespace Lexer

theorem charKind_eq_modifier {char : Char} (kind : charKind char = .modifier) :
    char = '!' ∨ char = '?' ∨ char = '#' := by
  revert kind
  fun_cases charKind char with
  | case1 found => simpa [or_assoc] using found
  | _ => simp

theorem bytes_eq_singleton {rune : Rune} (read : rune.IsRead) {char : Char} {byte : Byte}
    (same : rune.char = char) (ascii : byte < 0x80) (code : char.toNat = byte.toNat) :
    rune.bytes = [byte] := by
  rw [read.eq_ofByte ascii (by rw [same, code])]
  rfl

theorem spell_modifier {first : Rune} {rest : List Rune} (read : first.IsRead)
    (kind : (measure first rest).1 = .modifier) :
    let text := Rune.spell (first :: rest.take (measure first rest).2)
    text = utf8 "!" ∨ text = utf8 "?" ∨ text = utf8 "#" := by
  obtain ⟨_, same⟩ | ⟨_, same⟩ | ⟨_, same⟩ | ⟨_, same⟩ | ⟨_, same⟩ | ⟨_, _, same⟩ :=
    measure_cases first rest
  · simp [same] at kind
  · simp [same] at kind
  · simp [same] at kind
  · rcases nameKind_cases (first :: rest.takeWhile continuesName) with isName | isName <;>
      simp [same, isName] at kind
  · simp [same] at kind
  · rw [same] at kind
    simp only [same, List.take_zero, Rune.spell_cons, Rune.spell_nil, List.append_nil]
    rcases charKind_eq_modifier kind with char | char | char
    · exact Or.inl (bytes_eq_singleton read char (by decide) rfl)
    · exact Or.inr (Or.inl (bytes_eq_singleton read char (by decide) rfl))
    · exact Or.inr (Or.inr (bytes_eq_singleton read char (by decide) rfl))

theorem readInteger?_shape {text : Text} {value : Int} (read : readInteger? text = some value) :
    ∃ first rest, text = first :: rest ∧ (Text.isAsciiDigit first = true ∨
      (first = 0x2D ∨ first = 0x2B) ∧ ∃ digit, rest.head? = some digit ∧
        Text.isAsciiDigit digit = true) := by
  cases text with
  | nil => simp [readInteger?] at read
  | cons first rest =>
      refine ⟨first, rest, rfl, ?_⟩
      by_cases sign : first = 0x2D ∨ first = 0x2B
      · right
        refine ⟨sign, ?_⟩
        cases rest with
        | nil => simp [readInteger?, sign] at read
        | cons digit rest =>
            simp only [readInteger?, List.head?_cons, Option.some.injEq, Bool.or_eq_true,
              decide_eq_true_eq, sign, if_true, List.drop_succ_cons, List.drop_zero,
              List.isEmpty_cons, Bool.false_or, Bool.not_eq_true', Option.ite_none_left_eq_some,
              Bool.not_eq_false, List.all_cons, Bool.and_eq_true] at read
            exact ⟨digit, rfl, read.1.1⟩
      · left
        simp only [readInteger?, List.head?_cons, Option.some.injEq, Bool.or_eq_true,
          decide_eq_true_eq, sign, if_false, List.isEmpty_cons, Bool.false_or, Bool.not_eq_true',
          Option.ite_none_left_eq_some, Bool.not_eq_false, List.all_cons, Bool.and_eq_true] at read
        exact read.1.1

theorem isDigit_of_head {rune : Rune} (read : rune.IsRead) {byte : Byte} {tail : Text}
    (head : rune.bytes = byte :: tail) (digit : Text.isAsciiDigit byte = true) :
    isDigit rune = true := by
  simp only [Text.isAsciiDigit, Bool.and_eq_true, decide_eq_true_eq, UInt8.le_iff_toNat_le] at digit
  obtain ⟨other, ascii, rfl⟩ | ⟨_, _, high⟩ := read.cases
  · simp only [Rune.ofByte, List.cons.injEq] at head
    obtain ⟨rfl, _⟩ := head
    have code := Rune.ofByte_char_toNat ascii
    simp only [isDigit, Char.isDigit, Bool.and_eq_true, decide_eq_true_eq, UInt32.le_iff_toNat_le]
    exact ⟨by simpa [code] using digit.1, by simpa [code] using digit.2⟩
  · have bound := high byte (by simp [head])
    rw [UInt8.le_iff_toNat_le] at bound
    have limit : (0x39 : Byte).toNat < (0x80 : Byte).toNat := by decide
    omega

theorem measure_of_digit {first : Rune} {rest : List Rune}
    (digit : isDigit first = true ∨ first.char = '-' ∧ nextIs isDigit rest = true) :
    measure first rest = (.number, numberSize rest) := by
  have notQuote : ¬(decide (first.char = '"') || decide (first.char = '\'')) = true := by
    simp only [Bool.or_eq_true, decide_eq_true_eq]
    rintro (quote | quote) <;> simp [isDigit, quote] at digit
  rw [measure, if_neg notQuote, if_pos (by simpa using digit)]

theorem kind_of_integer {first : Rune} {rest : List Rune} {value : Int}
    (reads : ∀ rune ∈ first :: rest, rune.IsRead)
    (whole : readInteger? (Rune.spell (first :: rest.take (measure first rest).2)) = some value) :
    (measure first rest).1 = .number := by
  have firstRead := reads first (by simp)
  obtain ⟨byte, tail, spelled, shape⟩ := readInteger?_shape whole
  obtain ⟨head, others, bytes⟩ := List.exists_cons_of_ne_nil firstRead.bytes_ne_nil
  rw [Rune.spell_cons, bytes, List.cons_append, List.cons.injEq] at spelled
  obtain ⟨rfl, rfl⟩ := spelled
  rcases shape with digit | ⟨sign, digit, next, isDigit⟩
  · rw [measure_of_digit (Or.inl (isDigit_of_head firstRead bytes digit))]
  · have ascii : head < 0x80 := by rcases sign with rfl | rfl <;> decide
    obtain ⟨other, otherAscii, rfl⟩ | ⟨_, _, high⟩ := firstRead.cases
    · simp only [Rune.ofByte, List.cons.injEq] at bytes
      obtain ⟨rfl, rfl⟩ := bytes
      rw [List.nil_append] at next
      rcases sign with rfl | rfl
      · cases rest with
        | nil => simp at next
        | cons second rest =>
            generalize (measure (Rune.ofByte 0x2D) (second :: rest)).2 = size at next
            cases size with
            | zero => simp at next
            | succ size =>
                have secondRead := reads second (by simp)
                obtain ⟨code, more, secondBytes⟩ :=
                  List.exists_cons_of_ne_nil secondRead.bytes_ne_nil
                simp only [List.take_succ_cons, Rune.spell_cons, secondBytes, List.cons_append,
                  List.head?_cons, Option.some.injEq] at next
                subst next
                have nextDigit := isDigit_of_head secondRead secondBytes isDigit
                rw [measure_of_digit (Or.inr ⟨by decide, by simpa [nextIs] using nextDigit⟩)]
      · have plus : measure (Rune.ofByte 0x2B) rest = (.illegal, 0) := by
          cases rest <;> rfl
        simp [plus] at next
    · exact absurd ascii (by simpa using high head (by simp [bytes]))

theorem proper_of_mem {text : Text} {lexeme : Lexeme} (member : lexeme ∈ lexemes text.runes) :
    lexeme.Proper := by
  obtain ⟨front, first, rest, whole, _, rfl⟩ := exists_measure_of_mem member
  have reads : ∀ rune ∈ first :: rest, rune.IsRead := by
    intro rune inside
    have found : rune ∈ text.runes := by
      rw [whole]
      exact List.mem_append_right front inside
    exact Text.isRead_of_mem_runes found
  exact ⟨fun kind => spell_modifier (reads first (by simp)) kind,
    fun whole => kind_of_integer reads whole⟩

end Lexer

end EntitySchema
