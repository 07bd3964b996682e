import EntitySchema.Proofs.Token.Prefix
import EntitySchema.Proofs.Token.Written

/-!
Two texts in a row. A character that no token runs over separates what stands in front of it from
what stands behind, so both parts have the tokens they have alone. The one exception is a string
without its closing quote, which takes in everything.
-/

namespace EntitySchema.Lexer

/-- No token reaches over this character, strings apart. -/
structure Stops (mark : Rune) : Prop where
  digit : isDigit mark = false
  point : mark.char ≠ '.'
  name : continuesName mark = false
  arrow : ∀ first, isArrow first mark.char = false

variable {mark first : Rune} {rest tail : List Rune} {test : Rune → Bool}

theorem takeWhile_stop (stop : test mark = false) :
    (rest ++ mark :: tail).takeWhile test = rest.takeWhile test := by
  have stopped : (mark :: tail).takeWhile test = [] :=
    List.takeWhile_cons_of_neg (Bool.not_eq_true _ ▸ stop)
  rw [List.takeWhile_append]
  split
  next whole =>
    rw [stopped, List.append_nil, (List.takeWhile_prefix test).eq_of_length whole]
  next => rfl

theorem dropWhile_stop (stop : test mark = false) :
    (rest ++ mark :: tail).dropWhile test = rest.dropWhile test ++ mark :: tail := by
  have stopped : (mark :: tail).dropWhile test = mark :: tail :=
    List.dropWhile_cons_of_neg (Bool.not_eq_true _ ▸ stop)
  rw [List.dropWhile_append]
  split
  next empty => rw [stopped, List.isEmpty_iff.mp empty, List.nil_append]
  next => rfl

theorem length_takeWhile_stop_le (stop : test mark = false) :
    ((rest ++ mark :: tail).takeWhile test).length ≤ rest.length := by
  rw [takeWhile_stop stop]
  exact (List.takeWhile_prefix test).length_le

theorem fractionSize_stop_le (stops : Stops mark) :
    fractionSize (rest ++ mark :: tail) ≤ rest.length := by
  cases rest with
  | nil => simp [fractionSize_cons, stops.point]
  | cons point rest =>
      have digits : ((rest ++ mark :: tail).takeWhile isDigit).length ≤ rest.length :=
        length_takeWhile_stop_le stops.digit
      rw [List.cons_append, fractionSize_cons, List.length_cons]
      split_ifs <;> omega

theorem numberSize_stop_le (stops : Stops mark) :
    numberSize (rest ++ mark :: tail) ≤ rest.length := by
  have whole := congrArg List.length (List.takeWhile_append_dropWhile (p := isDigit) (l := rest))
  have fraction : fractionSize (rest.dropWhile isDigit ++ mark :: tail) ≤
      (rest.dropWhile isDigit).length := fractionSize_stop_le stops
  rw [List.length_append] at whole
  rw [numberSize, takeWhile_stop stops.digit, dropWhile_stop stops.digit]
  omega

theorem stringSize_append {quote : Char} (closed : stringSize quote rest < rest.length) :
    stringSize quote (rest ++ tail) = stringSize quote rest := by
  fun_induction stringSize quote rest with
  | case1 => contradiction
  | case2 rune escape => simp at closed
  | case3 rune escape next rest ih =>
      simp only [List.length_cons] at closed
      have same := ih (by omega)
      simp [stringSize, escape, same]
  | case4 rune rest plain closing =>
      rw [List.cons_append, stringSize_cons plain, if_pos closing]
  | case5 rune rest plain inside ih =>
      rw [List.length_cons] at closed
      rw [List.cons_append, stringSize_cons plain, if_neg inside, ih (by omega)]

theorem measure_append (stops : Stops mark)
    (closed : (measure first rest).1 = .string → (measure first rest).2 < rest.length) :
    measure first (rest ++ mark :: tail) = measure first rest := by
  -- A token that ends in front of the mark is not changed by cutting the text at the mark.
  have fits : (measure first (rest ++ mark :: tail)).2 ≤ rest.length := by
    obtain ⟨quote, same⟩ | ⟨_, same⟩ | ⟨_, same⟩ | ⟨_, same⟩ | ⟨arrow, same⟩ | ⟨_, _, same⟩ :=
      measure_cases first (rest ++ mark :: tail)
    · have alone : measure first rest = (.string, stringSize first.char rest) := by
        rw [measure, if_pos (by simpa using quote)]
      rw [alone] at closed
      rw [same, stringSize_append (closed rfl)]
      exact Nat.le_of_lt (closed rfl)
    · rw [same]
      exact numberSize_stop_le stops
    · rw [same]
      exact length_takeWhile_stop_le stops.name
    · rw [same]
      exact length_takeWhile_stop_le stops.name
    · rw [same]
      cases rest with
      | nil =>
          rw [List.nil_append, nextIs, stops.arrow] at arrow
          contradiction
      | cons second rest => exact Nat.succ_pos _
    · rw [same]
      exact Nat.zero_le _
  have cut := measure_take fits
  rw [List.take_left] at cut
  exact cut.symm

/-- What stands in front of the mark and what stands behind are split into tokens separately. -/
theorem lexemes_append {runes : List Rune} (stops : Stops mark)
    (closed : ∀ last ∈ (lexemes runes).getLast?, last.kind ≠ .string) :
    lexemes (runes ++ mark :: tail) = lexemes runes ++ lexemes (mark :: tail) := by
  induction runes using runes_induction with
  | blank runes blank => rw [lexemes_blanks_append blank, lexemes_of_blanks blank, List.nil_append]
  | token blanks first rest blank visible ih =>
      rw [lexemes_of_blanks_cons blank visible] at closed ⊢
      have fits := measure_le first rest
      have measured : measure first (rest ++ mark :: tail) = measure first rest := by
        refine measure_append stops fun isString => ?_
        by_contra reaches
        have nothing : lexemes (rest.drop (measure first rest).2) = [] := by
          rw [List.drop_eq_nil_of_le (by omega), lexemes_nil]
        rw [nothing] at closed
        exact closed _ rfl isString
      rw [List.append_assoc, List.cons_append, lexemes_of_blanks_cons blank visible, measured,
        List.take_append_of_le_length fits, List.drop_append_of_le_length fits,
        ih fun last member => closed last (List.mem_getLast?_cons member), List.cons_append]

theorem lexemes_runes_append {text tail : Text} {byte : Byte} (ascii : byte < 0x80)
    (stops : Stops (Rune.ofByte byte))
    (closed : ∀ last ∈ (lexemes text.runes).getLast?, last.kind ≠ .string) :
    lexemes (Text.runes (text ++ byte :: tail)) =
      lexemes text.runes ++ lexemes (Text.runes (byte :: tail)) := by
  have boundary : ∀ first ∈ (byte :: tail).head?, Rune.isContinuation first = false := by
    simp [Rune.isContinuation, UInt8.not_le.mpr ascii]
  rw [Text.runes_append text (byte :: tail) boundary, Text.runes_cons_ascii tail ascii,
    lexemes_append stops closed]

end EntitySchema.Lexer
