import EntitySchema.Expression.Read
import EntitySchema.Proofs.Token.Position
import EntitySchema.Proofs.Token.Step
import Mathlib.Data.List.TakeWhile

/-!
The lexemes of a text, apart from where they stand. They come one by one from the runes that are
left, and how each of them is spelled follows from the kind the lexer gave it.
-/

namespace EntitySchema

namespace Lexer

open Expression

def lexemes (runes : List Rune) : List Lexeme := lexemesOf (tokensFrom Position.start runes)

theorem tokensFrom_ne_nil (position : Position) (runes : List Rune) :
    tokensFrom position runes ≠ [] := by
  cases shape : runes.dropWhile isBlank with
  | nil => simp [tokensFrom_of_blank position shape]
  | cons first rest => simp [tokensFrom_of_token position shape]

theorem lexemesOf_cons_tokensFrom (token : Token) (position : Position) (runes : List Rune) :
    lexemesOf (token :: tokensFrom position runes) =
      token.toLexeme :: lexemesOf (tokensFrom position runes) := by
  simp [lexemesOf, List.dropLast_cons_of_ne_nil (tokensFrom_ne_nil position runes)]

theorem lexemesOf_tokensFrom (position : Position) (runes : List Rune) :
    lexemesOf (tokensFrom position runes) = lexemes runes := by
  unfold lexemes
  generalize Position.start = other
  induction length : runes.length using Nat.strongRecOn generalizing position other runes with
  | ind size ih =>
      cases shape : runes.dropWhile isBlank with
      | nil => rw [tokensFrom_of_blank _ shape, tokensFrom_of_blank _ shape]; rfl
      | cons first rest =>
          have shorter : (rest.drop (measure first rest).2).length < size := by
            have bound := (List.dropWhile_suffix isBlank (l := runes)).length_le
            rw [shape] at bound
            simp only [List.length_cons, List.length_drop] at bound ⊢
            omega
          rw [tokensFrom_of_token _ shape, tokensFrom_of_token _ shape, lexemesOf_cons_tokensFrom,
            lexemesOf_cons_tokensFrom, ih _ shorter _ _ _ rfl]

theorem lexemes_of_blank {runes : List Rune} (blank : runes.dropWhile isBlank = []) :
    lexemes runes = [] := by
  rw [lexemes, tokensFrom_of_blank _ blank]
  rfl

theorem lexemes_of_token {runes rest : List Rune} {first : Rune}
    (shape : runes.dropWhile isBlank = first :: rest) :
    lexemes runes =
      ⟨(measure first rest).1, Rune.spell (first :: rest.take (measure first rest).2)⟩ ::
        lexemes (rest.drop (measure first rest).2) := by
  rw [lexemes, tokensFrom_of_token _ shape, lexemesOf_cons_tokensFrom, lexemesOf_tokensFrom]

/-- Blanks and the end, or blanks, the runes of a token, and what stands behind them. -/
theorem runes_induction {motive : List Rune → Prop}
    (blank : ∀ runes, (∀ rune ∈ runes, isBlank rune = true) → motive runes)
    (token : ∀ blanks first rest, (∀ rune ∈ blanks, isBlank rune = true) →
      isBlank first = false → motive (rest.drop (measure first rest).2) →
      motive (blanks ++ first :: rest)) (runes : List Rune) : motive runes := by
  induction length : runes.length using Nat.strongRecOn generalizing runes with
  | ind size ih =>
      have split := List.takeWhile_append_dropWhile (p := isBlank) (l := runes)
      cases shape : runes.dropWhile isBlank with
      | nil => exact blank runes (List.dropWhile_eq_nil_iff.mp shape)
      | cons first rest =>
          rw [shape] at split
          have visible := List.head?_dropWhile_not isBlank runes
          rw [shape] at visible
          have bound := congrArg List.length split
          simp only [List.length_append, List.length_cons] at bound
          rw [← split]
          refine token _ first rest (fun rune member => List.mem_takeWhile_imp member)
            (by simpa using visible) (ih _ ?_ _ rfl)
          simp only [List.length_drop]
          omega

theorem lexemes_of_blanks {runes : List Rune} (blank : ∀ rune ∈ runes, isBlank rune = true) :
    lexemes runes = [] := lexemes_of_blank (List.dropWhile_eq_nil_iff.mpr blank)

theorem lexemes_blanks_append {blanks : List Rune} (blank : ∀ rune ∈ blanks, isBlank rune = true)
    (tail : List Rune) : lexemes (blanks ++ tail) = lexemes tail := by
  have skipped : (blanks ++ tail).dropWhile isBlank = tail.dropWhile isBlank :=
    List.dropWhile_append_of_pos blank
  cases shape : tail.dropWhile isBlank with
  | nil => rw [lexemes_of_blank shape, lexemes_of_blank (skipped.trans shape)]
  | cons first rest => rw [lexemes_of_token shape, lexemes_of_token (skipped.trans shape)]

theorem dropWhile_blanks_cons {blanks : List Rune} {first : Rune}
    (blank : ∀ rune ∈ blanks, isBlank rune = true) (visible : isBlank first = false)
    (rest : List Rune) :
    (blanks ++ first :: rest).dropWhile isBlank = first :: rest := by
  rw [List.dropWhile_append_of_pos blank, List.dropWhile_cons_of_neg (by simp [visible])]

theorem takeWhile_blanks_cons {blanks : List Rune} {first : Rune}
    (blank : ∀ rune ∈ blanks, isBlank rune = true) (visible : isBlank first = false)
    (rest : List Rune) : (blanks ++ first :: rest).takeWhile isBlank = blanks := by
  rw [List.takeWhile_append_of_pos blank, List.takeWhile_cons_of_neg (by simp [visible]),
    List.append_nil]

theorem lexemes_of_blanks_cons {blanks rest : List Rune} {first : Rune}
    (blank : ∀ rune ∈ blanks, isBlank rune = true) (visible : isBlank first = false) :
    lexemes (blanks ++ first :: rest) =
      ⟨(measure first rest).1, Rune.spell (first :: rest.take (measure first rest).2)⟩ ::
        lexemes (rest.drop (measure first rest).2) :=
  lexemes_of_token (dropWhile_blanks_cons blank visible _)

theorem exists_measure_of_mem {runes : List Rune} {lexeme : Lexeme}
    (member : lexeme ∈ lexemes runes) :
    ∃ front first rest, runes = front ++ first :: rest ∧ isBlank first = false ∧
      lexeme =
        ⟨(measure first rest).1, Rune.spell (first :: rest.take (measure first rest).2)⟩ := by
  induction runes using runes_induction with
  | blank runes blank => simp [lexemes_of_blanks blank] at member
  | token blanks first rest blank visible ih =>
      rw [lexemes_of_blanks_cons blank visible, List.mem_cons] at member
      rcases member with rfl | member
      · exact ⟨blanks, first, rest, rfl, visible, rfl⟩
      · obtain ⟨front, other, behind, whole, found⟩ := ih member
        refine ⟨blanks ++ first :: rest.take (measure first rest).2 ++ front, other, behind, ?_,
          found⟩
        rw [List.append_assoc, ← whole, List.append_assoc, List.cons_append,
          List.take_append_drop]

theorem map_toLexeme_tokensFrom (position : Position) (runes : List Rune) :
    (tokensFrom position runes).map Token.toLexeme = lexemes runes ++ [⟨.eof, []⟩] := by
  induction runes using runes_induction generalizing position with
  | blank runes blank =>
      rw [tokensFrom_of_blank _ (List.dropWhile_eq_nil_iff.mpr blank), lexemes_of_blanks blank]
      rfl
  | token blanks first rest blank visible ih =>
      have shape := dropWhile_blanks_cons blank visible rest
      rw [tokensFrom_of_token _ shape, lexemes_of_token shape, List.map_cons, ih, List.cons_append]

theorem exists_measure_of_getElem? {position : Position} {runes : List Rune} {index : Nat}
    {token : Token} (found : (tokensFrom position runes)[index]? = some token)
    (inner : token.kind ≠ .eof) :
    ∃ front first rest behind, runes = front ++ first :: rest ∧
      token = ⟨⟨(measure first rest).1, Rune.spell (first :: rest.take (measure first rest).2)⟩,
        position.after front⟩ ∧
      (tokensFrom position runes).drop (index + 1) =
        tokensFrom behind (rest.drop (measure first rest).2) := by
  induction runes using runes_induction generalizing position index with
  | blank runes blank =>
      rw [tokensFrom_of_blank _ (List.dropWhile_eq_nil_iff.mpr blank)] at found
      obtain rfl := List.mem_singleton.mp (List.mem_of_getElem? found)
      contradiction
  | token blanks first rest blank visible ih =>
      have shape := dropWhile_blanks_cons blank visible rest
      rw [tokensFrom_of_token _ shape, takeWhile_blanks_cons blank visible] at found ⊢
      cases index with
      | zero => exact ⟨blanks, first, rest, _, rfl, (Option.some.inj found).symm, rfl⟩
      | succ index =>
          obtain ⟨front, next, others, behind, whole, same, left⟩ := ih found
          refine ⟨blanks ++ first :: rest.take (measure first rest).2 ++ front, next, others,
            behind, ?_, ?_, left⟩
          · rw [List.append_assoc, ← whole, List.append_assoc, List.cons_append,
              List.take_append_drop]
          · rw [same, Position.after_append, Position.after_append]

end Lexer

theorem lexemesOf_tokenize (text : Text) :
    Expression.lexemesOf (tokenize text) = Lexer.lexemes text.runes := rfl

end EntitySchema
