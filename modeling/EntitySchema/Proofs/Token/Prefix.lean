import EntitySchema.Proofs.Token.Lexemes
import EntitySchema.Proofs.Token.Position
import EntitySchema.Proofs.Token.Quoted
import Mathlib.Data.List.TakeWhile

/-!
A text cut in front of one of its tokens. The lexer looks no further than the end of a token, so
what is left are the tokens that stood in front of the cut.
-/

namespace EntitySchema

namespace Lexer

variable {test : Rune → Bool} {rest : List Rune} {size : Nat}

theorem nextIs_take (positive : 0 < size) : nextIs test (rest.take size) = nextIs test rest := by
  cases rest with
  | nil => rw [List.take_nil]
  | cons first rest =>
      obtain ⟨size, rfl⟩ := Nat.exists_eq_succ_of_ne_zero (Nat.pos_iff_ne_zero.mp positive)
      rfl

theorem takeWhile_take (enough : (rest.takeWhile test).length ≤ size) :
    (rest.take size).takeWhile test = rest.takeWhile test := by
  induction rest generalizing size with
  | nil => rw [List.take_nil]
  | cons first rest ih =>
      by_cases passed : test first = true
      · rw [List.takeWhile_cons_of_pos passed, List.length_cons] at enough
        obtain ⟨size, rfl⟩ : ∃ smaller, size = smaller + 1 := ⟨size - 1, by omega⟩
        rw [List.take_succ_cons, List.takeWhile_cons_of_pos passed,
          List.takeWhile_cons_of_pos passed, ih (by omega)]
      · rw [List.takeWhile_cons_of_neg passed]
        cases size with
        | zero => rfl
        | succ size => rw [List.take_succ_cons, List.takeWhile_cons_of_neg passed]

theorem stringSize_take {quote : Char} (enough : stringSize quote rest ≤ size) :
    stringSize quote (rest.take size) = stringSize quote rest := by
  fun_induction stringSize quote rest generalizing size with
  | case1 => rw [List.take_nil, stringSize]
  | case2 rune escape =>
      obtain ⟨size, rfl⟩ : ∃ smaller, size = smaller + 1 := ⟨size - 1, by omega⟩
      simp [stringSize, escape]
  | case3 rune escape next rest ih =>
      obtain ⟨size, rfl⟩ : ∃ smaller, size = smaller + 2 := ⟨size - 2, by omega⟩
      have same := @ih size (by omega)
      simp [stringSize, escape, same]
  | case4 rune rest plain closing =>
      obtain ⟨size, rfl⟩ : ∃ smaller, size = smaller + 1 := ⟨size - 1, by omega⟩
      rw [List.take_succ_cons, stringSize_cons plain, if_pos closing]
  | case5 rune rest plain inside ih =>
      obtain ⟨size, rfl⟩ : ∃ smaller, size = smaller + 1 := ⟨size - 1, by omega⟩
      rw [List.take_succ_cons, stringSize_cons plain, if_neg inside, ih (by omega)]

theorem stringSize_pos (quote : Char) (first : Rune) (rest : List Rune) :
    0 < stringSize quote (first :: rest) := by
  unfold stringSize
  split_ifs
  · split <;> omega
  · omega
  · omega

theorem fractionSize_cons (first : Rune) (rest : List Rune) : fractionSize (first :: rest) =
    if first.char = '.' && nextIs isDigit rest then (rest.takeWhile isDigit).length + 1 else 0 :=
  rfl

theorem takeWhile_pos (next : nextIs test rest = true) : 0 < (rest.takeWhile test).length := by
  cases rest with
  | nil => cases next
  | cons first rest =>
      have passed : test first = true := next
      rw [List.takeWhile_cons_of_pos passed]
      exact Nat.succ_pos _

theorem fractionSize_take (enough : fractionSize rest ≤ size) :
    fractionSize (rest.take size) = fractionSize rest := by
  cases rest with
  | nil => rw [List.take_nil]
  | cons first rest =>
      rw [fractionSize_cons] at enough ⊢
      split_ifs at enough ⊢ with point
      · rw [Bool.and_eq_true] at point
        have digit := takeWhile_pos point.2
        obtain ⟨size, rfl⟩ : ∃ smaller, size = smaller + 1 := ⟨size - 1, by omega⟩
        rw [List.take_succ_cons, fractionSize_cons, nextIs_take (by omega),
          takeWhile_take (by omega), if_pos (by simpa using point)]
      · cases size with
        | zero => rfl
        | succ size =>
            rw [List.take_succ_cons, fractionSize_cons, if_neg]
            intro shorter
            apply point
            cases size with
            | zero => simp [nextIs] at shorter
            | succ size => rwa [nextIs_take (Nat.succ_pos size)] at shorter

theorem numberSize_take (enough : numberSize rest ≤ size) :
    numberSize (rest.take size) = numberSize rest := by
  unfold numberSize at enough ⊢
  have digits : (rest.take size).takeWhile isDigit = rest.takeWhile isDigit :=
    takeWhile_take (by omega)
  have behind : (rest.take size).dropWhile isDigit =
      (rest.dropWhile isDigit).take (size - (rest.takeWhile isDigit).length) := by
    have dropped {list : List Rune} :
        list.dropWhile isDigit = list.drop (list.takeWhile isDigit).length := by
      nth_rewrite 3 [← List.takeWhile_append_dropWhile (p := isDigit) (l := list)]
      rw [List.drop_left]
    rw [dropped, dropped, digits, List.drop_take]
  rw [digits, behind, fractionSize_take (by omega)]

/-- How much of the text belongs to a token does not depend on what stands behind the token. -/
theorem measure_take {first : Rune} (enough : (measure first rest).2 ≤ size) :
    measure first (rest.take size) = measure first rest := by
  by_cases positive : 0 < size
  · unfold measure at enough ⊢
    simp only [nextIs_take positive]
    split_ifs at enough ⊢
    · rw [stringSize_take enough]
    · rw [numberSize_take enough]
    · rw [takeWhile_take enough]
    · rw [takeWhile_take enough]
    · rfl
    · rfl
  · obtain rfl : size = 0 := by omega
    rw [List.take_zero]
    cases rest with
    | nil => rfl
    | cons second rest =>
        have aside (test : Rune → Bool) : nextIs test [] = false := rfl
        unfold measure at enough ⊢
        simp only [aside, Bool.and_false, Bool.or_false, Bool.false_eq_true, if_false]
        split_ifs at enough with quote number directive name arrow
        · have positive := stringSize_pos first.char second rest
          omega
        · have noDigit : nextIs isDigit (second :: rest) = false := by
            by_contra digit
            have positive := takeWhile_pos (Bool.not_eq_false _ ▸ digit)
            rw [numberSize] at enough
            omega
          have digit : isDigit first = true := by simpa [noDigit] using number
          rw [if_neg quote, if_pos digit, if_neg quote, if_pos number]
          exact congrArg (Prod.mk _) (Nat.le_zero.mp enough).symm
        · have continues : nextIs continuesName (second :: rest) = true := by
            rw [Bool.and_eq_true] at directive
            have starts := directive.2
            simp only [nextIs, startsName] at starts
            simp only [nextIs, continuesName, starts, Bool.true_or]
          have positive := takeWhile_pos continues
          omega
        · have empty := List.length_eq_zero_iff.mp (Nat.le_zero.mp enough)
          have noDigit : ¬isDigit first = true := fun digit => number (by simp [digit])
          rw [if_neg quote, if_neg noDigit, if_pos name, if_neg quote, if_neg number,
            if_neg directive, if_pos name, empty, List.takeWhile_nil]
        · omega
        · have noDigit : ¬isDigit first = true := fun digit => number (by simp [digit])
          rw [if_neg quote, if_neg noDigit, if_neg name, if_neg quote, if_neg number,
            if_neg directive, if_neg name, if_neg arrow]

theorem stringSize_le (quote : Char) (rest : List Rune) :
    stringSize quote rest ≤ rest.length := by
  fun_induction stringSize quote rest with
  | case1 => exact Nat.le_refl _
  | case2 => exact Nat.le_refl _
  | case3 rune escape next rest ih =>
      simp only [List.length_cons]
      omega
  | case4 => simp
  | case5 rune rest plain inside ih =>
      simp only [List.length_cons]
      omega

theorem numberSize_le (rest : List Rune) : numberSize rest ≤ rest.length := by
  have split := congrArg List.length (List.takeWhile_append_dropWhile (p := isDigit) (l := rest))
  rw [List.length_append] at split
  rw [numberSize]
  cases shape : rest.dropWhile isDigit with
  | nil =>
      rw [fractionSize]
      omega
  | cons first behind =>
      have inner := (List.takeWhile_prefix isDigit (l := behind)).length_le
      rw [shape, List.length_cons] at split
      rw [fractionSize_cons]
      split_ifs <;> omega

theorem measure_le (first : Rune) (rest : List Rune) : (measure first rest).2 ≤ rest.length := by
  have name := (List.takeWhile_prefix continuesName (l := rest)).length_le
  unfold measure
  split_ifs with quote number directive starts arrow
  · exact stringSize_le first.char rest
  · exact numberSize_le rest
  · exact name
  · exact name
  · cases rest with
    | nil => cases arrow
    | cons second rest => simp
  · exact Nat.zero_le _

theorem lexemes_cut {blanks rest front back : List Rune} {first : Rune}
    (blank : ∀ rune ∈ blanks, isBlank rune = true) (visible : isBlank first = false)
    (whole : rest.drop (measure first rest).2 = front ++ back) :
    lexemes (blanks ++ first :: (rest.take (measure first rest).2 ++ front)) =
      ⟨(measure first rest).1, Rune.spell (first :: rest.take (measure first rest).2)⟩ ::
        lexemes front := by
  have length : (rest.take (measure first rest).2).length = (measure first rest).2 := by
    rw [List.length_take, Nat.min_eq_left (measure_le first rest)]
  have cut : rest.take (measure first rest).2 ++ front =
      rest.take ((measure first rest).2 + front.length) := by
    rw [List.take_add, whole, List.take_left]
  have measured : measure first (rest.take (measure first rest).2 ++ front) =
      measure first rest := by
    rw [cut]
    exact measure_take (Nat.le_add_right _ _)
  rw [lexemes_of_blanks_cons blank visible, measured, List.take_left' length,
    List.drop_left' length]

theorem exists_cut {position : Position} {runes : List Rune} {index : Nat} {token : Token}
    (found : (tokensFrom position runes)[index]? = some token) :
    ∃ front back, runes = front ++ back ∧ token.position = position.after front ∧
      lexemes front = (lexemes runes).take index := by
  induction runes using runes_induction generalizing position index with
  | blank runes blank =>
      rw [tokensFrom_of_blank _ (List.dropWhile_eq_nil_iff.mpr blank)] at found
      obtain rfl := List.mem_singleton.mp (List.mem_of_getElem? found)
      refine ⟨runes, [], (List.append_nil runes).symm, rfl, ?_⟩
      rw [lexemes_of_blanks blank, List.take_nil]
  | token blanks first rest blank visible ih =>
      have shape := dropWhile_blanks_cons blank visible rest
      rw [tokensFrom_of_token _ shape, takeWhile_blanks_cons blank visible] at found
      cases index with
      | zero =>
          obtain rfl := Option.some.inj found
          exact ⟨blanks, first :: rest, rfl, rfl, lexemes_of_blanks blank⟩
      | succ index =>
          obtain ⟨front, back, whole, place, same⟩ := ih found
          refine ⟨blanks ++ first :: (rest.take (measure first rest).2 ++ front), back, ?_, ?_, ?_⟩
          · rw [List.append_assoc, List.cons_append, List.append_assoc, ← whole,
              List.take_append_drop]
          · rw [place, Position.after_append, ← Position.after_append _ _ front]
            rfl
          · rw [lexemes_cut blank visible whole, same, lexemes_of_blanks_cons blank visible,
              List.take_succ_cons]

end Lexer

open Lexer Expression

theorem lexemesOf_tokenize_take {text : Text} {index : Nat} {token : Token}
    (found : (tokenize text)[index]? = some token) :
    lexemesOf (tokenize (text.take token.position.offset)) =
      (lexemesOf (tokenize text)).take index := by
  obtain ⟨front, back, whole, place, same⟩ := exists_cut found
  have bytes := congrArg Rune.spell whole
  rw [Text.spell_runes, Rune.spell_append] at bytes
  have offset : token.position.offset = (Rune.spell front).length := by
    rw [place, Position.offset_after]
    exact Nat.zero_add _
  have cut : text.take token.position.offset = Rune.spell front := by
    rw [offset, bytes, List.take_left]
  rw [cut, lexemesOf_tokenize, lexemesOf_tokenize, (Text.runes_spell_of_append whole).1, same]

end EntitySchema
