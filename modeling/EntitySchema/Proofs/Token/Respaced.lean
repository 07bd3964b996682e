import EntitySchema.Proofs.Token.Closed
import EntitySchema.Proofs.Token.Joined

/-!
Tokens written apart. What the lexer decides at the first runes of a token it decides again when
the token stands alone or in front of a blank, so its layout is all that a text loses when its
tokens are written with one blank between each two of them.
-/

namespace EntitySchema

namespace Lexer

variable {first : Rune} {rest tail : List Rune}

theorem stops_blank : Stops (Rune.ofByte 0x20) where
  digit := by decide
  point := by decide
  name := by decide
  arrow first := by simp [isArrow, Rune.ofByte]

theorem measure_of_quote (isQuote : first.char = '"' ∨ first.char = '\'') (rest : List Rune) :
    measure first rest = (.string, stringSize first.char rest) := by
  rw [measure, if_pos (by simpa using isQuote)]

theorem measure_taken_append {mark : Rune} (stops : Stops mark)
    (closed : (measure first rest).1 = .string → (measure first rest).2 < rest.length) :
    measure first (rest.take (measure first rest).2 ++ mark :: tail) = measure first rest := by
  by_cases isString : (measure first rest).1 = .string
  · have short := closed isString
    obtain ⟨isQuote, same⟩ := measure_of_string isString
    rw [same] at short ⊢
    have notBackslash : first.char ≠ '\\' := by
      rcases isQuote with quote | quote <;> simp [quote]
    have stopped : StopsAtQuote first.char rest :=
      (stopsAtQuote_or_runsOut first.char rest).resolve_right (Nat.ne_of_lt short)
    obtain ⟨body, closing, taken, _, _, size⟩ := stopped.exists_body notBackslash
    have total : stringSize first.char rest = body.length + 1 := by
      have length := congrArg List.length taken
      rw [List.length_take, List.length_append, List.length_singleton] at length
      omega
    rw [measure_of_quote isQuote, taken, List.append_assoc, List.singleton_append, size, total]
  · have whole : measure first (rest.take (measure first rest).2) = measure first rest :=
      measure_take (Nat.le_refl _)
    have other : (measure first (rest.take (measure first rest).2)).1 ≠ .string := by
      rwa [whole]
    rw [measure_append stops fun again => absurd again other, whole]

theorem lexemes_of_measured {token : TokenKind × Nat} (visible : isBlank first = false)
    (measured : measure first rest = token) :
    lexemes (first :: rest) =
      ⟨token.1, Rune.spell (first :: rest.take token.2)⟩ :: lexemes (rest.drop token.2) :=
  lexemes_cons visible measured

theorem lexemes_taken (visible : isBlank first = false) :
    lexemes (first :: rest.take (measure first rest).2) =
      [⟨(measure first rest).1, Rune.spell (first :: rest.take (measure first rest).2)⟩] := by
  have whole : measure first (rest.take (measure first rest).2) = measure first rest :=
    measure_take (Nat.le_refl _)
  rw [lexemes_of_measured visible whole, List.take_take, Nat.min_self, List.drop_take_self,
    lexemes_nil]

theorem lexemes_text_of_mem {text : Text} {lexeme : Lexeme}
    (member : lexeme ∈ lexemes text.runes) : lexemes lexeme.text.runes = [lexeme] := by
  obtain ⟨front, first, rest, whole, visible, rfl⟩ := exists_measure_of_mem member
  rw [← List.take_append_drop (measure first rest).2 rest, ← List.cons_append] at whole
  have own := (Text.runes_spell_of_append (Text.runes_spell_of_append whole).2).1
  rw [own, lexemes_taken visible]

def respaced (lexemes : List Lexeme) : Text := Text.join [0x20] (lexemes.map Lexeme.text)

theorem respaced_cons_cons (lexeme next : Lexeme) (others : List Lexeme) :
    respaced (lexeme :: next :: others) = lexeme.text ++ 0x20 :: respaced (next :: others) := by
  simp [respaced, Text.join]

theorem lexemes_respaced {runes : List Rune} (read : Text.runes (Rune.spell runes) = runes) :
    lexemes (Text.runes (respaced (lexemes runes))) = lexemes runes := by
  induction runes using runes_induction with
  | blank runes blank =>
      rw [lexemes_of_blanks blank]
      exact lexemes_nil
  | token blanks first rest blank visible ih =>
      have whole : Text.runes (Rune.spell (blanks ++ first :: rest)) =
          blanks ++ (first :: rest.take (measure first rest).2 ++
            rest.drop (measure first rest).2) := by
        rw [read, List.cons_append, List.take_append_drop]
      obtain ⟨own, left⟩ := Text.runes_spell_of_append (Text.runes_spell_of_append whole).2
      have again := ih left
      rw [lexemes_of_blanks_cons blank visible]
      cases others : lexemes (rest.drop (measure first rest).2) with
      | nil =>
          have alone : respaced [⟨(measure first rest).1,
              Rune.spell (first :: rest.take (measure first rest).2)⟩] =
                Rune.spell (first :: rest.take (measure first rest).2) := rfl
          rw [alone, own, lexemes_taken visible]
      | cons next more =>
          -- A string with other tokens behind it is closed, so it ends in front of the blank.
          have short : (measure first rest).2 < rest.length := by
            by_contra reaches
            rw [List.drop_eq_nil_of_le (by omega), lexemes_nil] at others
            contradiction
          have measured : measure first (rest.take (measure first rest).2 ++
              Rune.ofByte 0x20 :: Text.runes (respaced (next :: more))) = measure first rest :=
            measure_taken_append stops_blank fun _ => short
          have length : (rest.take (measure first rest).2).length = (measure first rest).2 := by
            rw [List.length_take, Nat.min_eq_left (Nat.le_of_lt short)]
          rw [others] at again
          rw [respaced_cons_cons, Text.runes_append _ _ (by simp; decide), own,
            Text.runes_cons_ascii _ (by decide), List.cons_append,
            lexemes_of_measured visible measured, List.take_left' length, List.drop_left' length,
            ← Text.runes_cons_ascii _ (by decide), lexemes_of_blank_cons (by decide), again]

theorem kind_ne_eof_of_mem {runes : List Rune} {lexeme : Lexeme} (member : lexeme ∈ lexemes runes) :
    lexeme.kind ≠ .eof := by
  obtain ⟨_, first, rest, _, _, rfl⟩ := exists_measure_of_mem member
  exact measure_kind_ne_eof first rest

end Lexer

open Lexer

def innerTokens (text : Text) : List Token :=
  (tokenize text).filter fun token => token.kind ≠ .eof

theorem map_toLexeme_innerTokens (text : Text) :
    (innerTokens text).map Token.toLexeme = lexemes text.runes := by
  have others : ∀ lexeme ∈ lexemes text.runes, decide (lexeme.kind ≠ .eof) = true := by
    intro lexeme member
    simpa using kind_ne_eof_of_mem member
  have whole := map_toLexeme_tokensFrom Position.start text.runes
  calc (innerTokens text).map Token.toLexeme
      = ((tokenize text).map Token.toLexeme).filter fun lexeme => lexeme.kind ≠ .eof := by
        rw [List.filter_map]
        rfl
    _ = lexemes text.runes := by
        rw [tokenize, whole, List.filter_append, List.filter_eq_self.mpr others]
        simp

/--
Tokens do not depend on what stands between them. Written with one blank between each two of them
they are split as before, and each of them is a token on its own.
-/
theorem tokenize_respaced (text : Text) :
    (tokenize (Text.join [0x20] ((innerTokens text).map fun token => token.text))).map
        Token.toLexeme = (innerTokens text).map Token.toLexeme ++ [⟨.eof, []⟩] ∧
      ∀ token ∈ innerTokens text,
        (tokenize token.text).map Token.toLexeme = [token.toLexeme, ⟨.eof, []⟩] := by
  have same := map_toLexeme_innerTokens text
  constructor
  · have texts : (innerTokens text).map (fun token => token.text) =
        (lexemes text.runes).map Lexeme.text := by
      rw [← same, List.map_map]
      rfl
    have read : Text.runes (Rune.spell text.runes) = text.runes := by rw [Text.spell_runes]
    rw [tokenize, map_toLexeme_tokensFrom, texts, same]
    exact congrArg (· ++ [_]) (lexemes_respaced read)
  · intro token member
    have inside : token.toLexeme ∈ lexemes text.runes :=
      same ▸ List.mem_map_of_mem member
    rw [tokenize, map_toLexeme_tokensFrom, lexemes_text_of_mem inside]
    rfl

def crowdedText : Text := utf8 "<-1.2.3~>$a$\t'x y"

theorem tokenize_respaced_crowded :
    (tokenize (utf8 "<- 1.2 . 3 ~> $a $ 'x y")).map Token.toLexeme =
        (innerTokens crowdedText).map Token.toLexeme ++ [⟨.eof, []⟩] ∧
      (⟨⟨.string, utf8 "'x y"⟩, ⟨1, 14, 13⟩⟩ : Token) ∈ innerTokens crowdedText ∧
      (tokenize (utf8 "'x y")).map Token.toLexeme = [⟨.string, utf8 "'x y"⟩, ⟨.eof, []⟩] := by
  obtain ⟨whole, alone⟩ := tokenize_respaced crowdedText
  have texts : Text.join [0x20] ((innerTokens crowdedText).map fun token => token.text) =
      utf8 "<- 1.2 . 3 ~> $a $ 'x y" := by decide +kernel
  have member : (⟨⟨.string, utf8 "'x y"⟩, ⟨1, 14, 13⟩⟩ : Token) ∈ innerTokens crowdedText := by
    decide +kernel
  rw [texts] at whole
  exact ⟨whole, member, alone _ member⟩

end EntitySchema
