import EntitySchema.Expression.Read
import EntitySchema.Proofs.Text.Decoding
import Mathlib.Data.List.TakeWhile
import Mathlib.Tactic.SplitIfs

/-!
What is decided before an expression is read. A text of white space and a text beyond the limit
are refused, and any other text is accepted exactly when its lexemes are.
-/

namespace EntitySchema

namespace Text

theorem trim_eq_nil_iff (text : Text) : text.trim = [] ↔ text.isBlank = true := by
  simp only [trim, isBlank, List.all_eq_true]
  constructor
  · intro empty
    rw [← List.dropWhile_eq_nil_iff]
    cases shape : text.runes.dropWhile fun rune => isSpace rune.char with
    | nil => rfl
    | cons first rest =>
        have visible := List.head?_dropWhile_not (fun rune => isSpace rune.char) text.runes
        simp only [shape, List.head?_cons] at visible
        have member : first ∈ text.runes.dropWhile fun rune => isSpace rune.char := by
          rw [shape]
          exact List.mem_cons_self
        have read := isRead_of_mem_runes ((List.dropWhile_suffix _).mem member)
        rw [shape, List.reverse_cons, List.dropWhile_append] at empty
        split at empty <;> simp [visible, Rune.spell, read.bytes_ne_nil] at empty
  · intro blank
    simp [List.dropWhile_eq_nil_iff.mpr blank]

theorem isBlank_of_ascii {first : Byte} (ascii : first < 0x80)
    (visible : isSpace (Rune.ofByte first).char = false) (rest : Text) :
    isBlank (first :: rest) = false := by
  rw [isBlank, runes_cons_ascii rest ascii, List.all_cons, visible, Bool.false_and]

end Text

namespace Expression

variable {α : Type} {blank : Cause} {readLexemes : List Lexeme → Except Fault α} {text : Text}

theorem read_eq_ok_iff {value : α} :
    read blank readLexemes text = .ok value ↔ text.isBlank = false ∧
      text.length ≤ maxExpressionLength ∧
      readLexemes (lexemesOf (tokenize text)) = .ok value := by
  unfold read
  split_ifs with isBlank long
  · simp [isBlank]
  · simp [Nat.not_le.mpr long]
  · simp only [isBlank, Nat.not_lt.mp long, true_and]
    cases readLexemes (lexemesOf (tokenize text)) <;> simp

theorem read_of_long (visible : text.isBlank = false) (long : maxExpressionLength < text.length) :
    read blank readLexemes text = .error { cause := .tooLong } := by
  rw [read, visible, if_neg (by decide), if_pos long]

end Expression

end EntitySchema
