import EntitySchema.Token.Lexer
import Mathlib.Data.List.Basic
import Mathlib.Tactic.SplitIfs

/-!
One step of the lexer: nothing but blanks is left, or a token is taken off behind the blanks.
-/

namespace EntitySchema.Lexer

theorem tokensFrom_of_blank (position : Position) {runes : List Rune}
    (blank : runes.dropWhile isBlank = []) :
    tokensFrom position runes = [⟨⟨.eof, []⟩, position.after runes⟩] := by
  have all : runes.takeWhile isBlank = runes := by
    have split := List.takeWhile_append_dropWhile (p := isBlank) (l := runes)
    rwa [blank, List.append_nil] at split
  rw [tokensFrom]
  split
  next => rw [all]
  next shape => simp [blank] at shape

theorem tokensFrom_of_token (position : Position) {runes rest : List Rune} {first : Rune}
    (shape : runes.dropWhile isBlank = first :: rest) :
    let start := position.after (runes.takeWhile isBlank)
    let taken := first :: rest.take (measure first rest).2
    tokensFrom position runes =
      ⟨⟨(measure first rest).1, Rune.spell taken⟩, start⟩ ::
        tokensFrom (start.after taken) (rest.drop (measure first rest).2) := by
  rw [tokensFrom]
  split
  next empty => simp [empty] at shape
  next found foundRest found_shape =>
    rw [shape, List.cons.injEq] at found_shape
    obtain ⟨rfl, rfl⟩ := found_shape
    rfl

theorem charKind_ne_eof (char : Char) : charKind char ≠ .eof := by
  fun_cases charKind char <;> simp

theorem charKind_ne_name (char : Char) : charKind char ≠ .ident ∧ charKind char ≠ .typeName := by
  fun_cases charKind char <;> simp

theorem nameKind_cases (runes : List Rune) :
    nameKind runes = .typeName ∨ nameKind runes = .ident := by
  unfold nameKind
  split
  · exact Or.inl rfl
  · exact Or.inr rfl

/-- The six rules of the lexer, each with what it needs to know of the first runes. -/
theorem measure_cases (first : Rune) (rest : List Rune) :
    (first.char = '"' ∨ first.char = '\'') ∧
        measure first rest = (.string, stringSize first.char rest) ∨
      (isDigit first = true ∨ first.char = '-' ∧ nextIs isDigit rest = true) ∧
        measure first rest = (.number, numberSize rest) ∨
      first.char = '$' ∧
        measure first rest = (.directive, (rest.takeWhile continuesName).length) ∨
      startsName first = true ∧
        measure first rest = (nameKind (first :: rest.takeWhile continuesName),
          (rest.takeWhile continuesName).length) ∨
      nextIs (fun second => isArrow first.char second.char) rest = true ∧
        measure first rest = (.relationOp, 1) ∨
      isDigit first = false ∧ (first.char = '-' → nextIs isDigit rest = false) ∧
        measure first rest = (charKind first.char, 0) := by
  unfold measure
  split_ifs with quote number directive name arrow
  · exact Or.inl ⟨by simpa using quote, rfl⟩
  · exact Or.inr (Or.inl ⟨by simpa using number, rfl⟩)
  · simp only [Bool.and_eq_true, decide_eq_true_eq] at directive
    exact Or.inr (Or.inr (Or.inl ⟨directive.1, rfl⟩))
  · exact Or.inr (Or.inr (Or.inr (Or.inl ⟨name, rfl⟩)))
  · exact Or.inr (Or.inr (Or.inr (Or.inr (Or.inl ⟨arrow, rfl⟩))))
  · simp only [Bool.or_eq_true, Bool.and_eq_true, decide_eq_true_eq, not_or, not_and,
      Bool.not_eq_true] at number
    exact Or.inr (Or.inr (Or.inr (Or.inr (Or.inr ⟨number.1, number.2, rfl⟩))))

theorem measure_kind_ne_eof (first : Rune) (rest : List Rune) : (measure first rest).1 ≠ .eof := by
  obtain ⟨_, same⟩ | ⟨_, same⟩ | ⟨_, same⟩ | ⟨_, same⟩ | ⟨_, same⟩ | ⟨_, _, same⟩ :=
    measure_cases first rest
  · simp [same]
  · simp [same]
  · simp [same]
  · rcases nameKind_cases (first :: rest.takeWhile continuesName) with kind | kind <;>
      simp [same, kind]
  · simp [same]
  · rw [same]
    exact charKind_ne_eof first.char

end EntitySchema.Lexer
