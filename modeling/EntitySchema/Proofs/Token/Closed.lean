import EntitySchema.Proofs.Token.Quoted

/-!
Strings with a closing quote. The lexer walks forward and takes pairs of a backslash and a rune;
resolving a string looks backward from its last byte and counts backslashes. Both find the same
strings closed.
-/

namespace EntitySchema

open Lexer

namespace DefaultValue

def backslashesAtEnd (text : Text) : Nat :=
  (text.reverse.takeWhile fun byte => byte = 0x5C).length

theorem backslashesAtEnd_append {front : Text} (paired : backslashesAtEnd front % 2 = 0)
    (back : Text) : backslashesAtEnd (front ++ back) % 2 = backslashesAtEnd back % 2 := by
  unfold backslashesAtEnd at paired ⊢
  rw [List.reverse_append, List.takeWhile_append]
  split
  next whole =>
    rw [List.length_append]
    omega
  next => rfl

theorem backslashesAtEnd_concat {byte : Byte} (plain : byte ≠ 0x5C) (front : Text) :
    backslashesAtEnd (front ++ [byte]) = 0 := by
  simp [backslashesAtEnd, plain]

theorem unquote?_isSome_iff (quote : Byte) (rest : Text) :
    (unquote? (quote :: rest)).isSome = true ↔
      ∃ body, rest = body ++ [quote] ∧ backslashesAtEnd body % 2 = 0 := by
  by_cases empty : rest = []
  · simp [empty, unquote?]
  · rw [unquote?_cons empty, Option.isSome_ite, List.getLast?_eq_some_iff]
    constructor
    · rintro ⟨⟨body, rfl⟩, paired⟩
      rw [List.dropLast_concat] at paired
      exact ⟨body, rfl, paired⟩
    · rintro ⟨body, rfl, paired⟩
      rw [List.dropLast_concat]
      exact ⟨⟨body, rfl⟩, paired⟩

end DefaultValue

namespace Lexer

open DefaultValue

/--
The lexer leaves a string at a quote like the one it opened with, and not at the end of the text.
No backslash takes that quote.
-/
def StopsAtQuote (quote : Char) (rest : List Rune) : Prop :=
  ∃ body closing behind, rest = body ++ closing :: behind ∧ Escaped quote body ∧
    closing.char = quote ∧ stringSize quote rest = body.length + 1

section Runes

variable {rune : Rune}

theorem exists_last_byte (read : rune.IsRead) (plain : rune.char ≠ '\\') :
    ∃ front last, rune.bytes = front ++ [last] ∧ last ≠ 0x5C := by
  obtain ⟨byte, ascii, rfl⟩ | ⟨_, some, high⟩ := read.cases
  · refine ⟨[], byte, rfl, ?_⟩
    rintro rfl
    exact plain (by decide)
  · obtain ⟨front, last, shape⟩ := (List.eq_nil_or_concat' rune.bytes).resolve_left some
    refine ⟨front, last, shape, ?_⟩
    rintro rfl
    exact absurd (high 0x5C (by simp [shape])) (by decide)

theorem backslashesAtEnd_plain (read : rune.IsRead) (plain : rune.char ≠ '\\') (front : Text) :
    backslashesAtEnd (front ++ rune.bytes) = 0 := by
  obtain ⟨before, last, shape, different⟩ := exists_last_byte read plain
  rw [shape, ← List.append_assoc, backslashesAtEnd_concat different]

theorem bytes_backslash (read : rune.IsRead) (backslash : rune.char = '\\') :
    rune.bytes = [0x5C] := bytes_eq_singleton read backslash (by decide) rfl

theorem backslashesAtEnd_pair {backslash : Rune} (backslashRead : backslash.IsRead)
    (read : rune.IsRead) (escape : backslash.char = '\\') :
    backslashesAtEnd (backslash.bytes ++ rune.bytes) % 2 = 0 := by
  by_cases again : rune.char = '\\'
  · rw [bytes_backslash backslashRead escape, bytes_backslash read again]
    rfl
  · rw [backslashesAtEnd_plain read again]

end Runes

variable {quote : Char} {rest : List Rune}

theorem Escaped.backslashesAtEnd {body : List Rune} (escaped : Escaped quote body)
    (reads : ∀ rune ∈ body, rune.IsRead) : backslashesAtEnd (Rune.spell body) % 2 = 0 := by
  induction escaped with
  | nil => rfl
  | @plain rune body noBackslash _ _ ih =>
      rw [List.forall_mem_cons] at reads
      have nothing : DefaultValue.backslashesAtEnd rune.bytes = 0 :=
        backslashesAtEnd_plain reads.1 noBackslash []
      rw [Rune.spell_cons, backslashesAtEnd_append (by rw [nothing])]
      exact ih reads.2
  | @escape backslash rune body isBackslash _ ih =>
      simp only [List.forall_mem_cons] at reads
      rw [Rune.spell_cons, Rune.spell_cons, ← List.append_assoc,
        backslashesAtEnd_append (backslashesAtEnd_pair reads.1 reads.2.1 isBackslash)]
      exact ih reads.2.2

namespace StopsAtQuote

theorem plain {rune : Rune} (noBackslash : rune.char ≠ '\\') (noQuote : rune.char ≠ quote)
    (stops : StopsAtQuote quote rest) : StopsAtQuote quote (rune :: rest) := by
  obtain ⟨body, closing, behind, shape, escaped, isQuote, size⟩ := stops
  refine ⟨rune :: body, closing, behind, by rw [shape, List.cons_append],
    .plain noBackslash noQuote escaped, isQuote, ?_⟩
  rw [stringSize_cons noBackslash, if_neg noQuote, size, List.length_cons]

theorem escape {backslash rune : Rune} (isBackslash : backslash.char = '\\')
    (stops : StopsAtQuote quote rest) : StopsAtQuote quote (backslash :: rune :: rest) := by
  obtain ⟨body, closing, behind, shape, escaped, isQuote, size⟩ := stops
  refine ⟨backslash :: rune :: body, closing, behind, by rw [shape]; rfl,
    .escape isBackslash escaped, isQuote, ?_⟩
  simp [stringSize, isBackslash, size]

theorem closing {rune : Rune} (noBackslash : rune.char ≠ '\\') (isQuote : rune.char = quote)
    (rest : List Rune) : StopsAtQuote quote (rune :: rest) := by
  refine ⟨[], rune, rest, rfl, .nil, isQuote, ?_⟩
  rw [stringSize_cons noBackslash, if_pos isQuote, List.length_nil]

theorem exists_body (stops : StopsAtQuote quote rest) (notBackslash : quote ≠ '\\') :
    ∃ body closing, rest.take (stringSize quote rest) = body ++ [closing] ∧
      Escaped quote body ∧ closing.char = quote ∧
      ∀ tail, stringSize quote (body ++ closing :: tail) = body.length + 1 := by
  obtain ⟨body, closing, behind, rfl, escaped, rfl, size⟩ := stops
  refine ⟨body, closing, ?_, escaped, rfl, stringSize_of_escaped escaped notBackslash⟩
  rw [size, List.append_cons, List.take_left' (by simp)]

end StopsAtQuote

theorem stopsAtQuote_or_runsOut (quote : Char) (rest : List Rune) :
    StopsAtQuote quote rest ∨ stringSize quote rest = rest.length := by
  fun_induction stringSize quote rest with
  | case1 => exact Or.inr rfl
  | case2 => exact Or.inr rfl
  | case3 rune escape next rest ih => exact ih.imp (.escape escape) (by simp)
  | case4 rune rest plain closing => exact Or.inl (.closing plain closing rest)
  | case5 rune rest plain inside ih => exact ih.imp (.plain plain inside) (by simp)

theorem stopsAtQuote_concat {closing : Rune} (isQuote : closing.char = quote)
    (notBackslash : closing.char ≠ '\\') {body : List Rune} (reads : ∀ rune ∈ body, rune.IsRead)
    (paired : backslashesAtEnd (Rune.spell body) % 2 = 0) :
    StopsAtQuote quote (body ++ [closing]) := by
  fun_induction stringSize quote body with
  | case1 => exact .closing notBackslash isQuote []
  | case2 rune escape =>
      rw [Rune.spell_cons, bytes_backslash (reads rune (by simp)) escape] at paired
      contradiction
  | case3 rune escape next rest ih =>
      simp only [List.forall_mem_cons] at reads
      rw [Rune.spell_cons, Rune.spell_cons, ← List.append_assoc,
        backslashesAtEnd_append (backslashesAtEnd_pair reads.1 reads.2.1 escape)] at paired
      exact .escape escape (ih reads.2.2 paired)
  | case4 rune rest plain closes => exact .closing plain closes _
  | case5 rune rest plain inside ih =>
      rw [List.forall_mem_cons] at reads
      have nothing : DefaultValue.backslashesAtEnd rune.bytes = 0 :=
        backslashesAtEnd_plain reads.1 plain []
      rw [Rune.spell_cons, backslashesAtEnd_append (by rw [nothing])] at paired
      exact .plain plain inside (ih reads.2 paired)

theorem unquote?_isSome_iff_stopsAtQuote {opening : Byte} (ascii : opening < 0x80)
    (notBackslash : (Rune.ofByte opening).char ≠ '\\') (reads : ∀ rune ∈ rest, rune.IsRead) :
    (unquote? (Rune.spell (Rune.ofByte opening ::
      rest.take (stringSize (Rune.ofByte opening).char rest)))).isSome = true ↔
        StopsAtQuote (Rune.ofByte opening).char rest := by
  have opens : (Rune.ofByte opening).bytes = [opening] := rfl
  rw [Rune.spell_cons, opens, List.singleton_append, unquote?_isSome_iff]
  constructor
  · rintro ⟨body, spelled, paired⟩
    obtain stops | size := stopsAtQuote_or_runsOut (Rune.ofByte opening).char rest
    · exact stops
    · -- The string takes the whole text, whose last byte must be a rune of its own.
      rw [size, List.take_length] at spelled
      obtain ⟨before, last, rfl⟩ := (List.eq_nil_or_concat' rest).resolve_left (by
        rintro rfl
        simp at spelled)
      rw [List.forall_mem_append, List.forall_mem_singleton] at reads
      rw [Rune.spell_append, Rune.spell_cons, Rune.spell_nil, List.append_nil] at spelled
      obtain ⟨byte, _, rfl⟩ | ⟨_, some, high⟩ := reads.2.cases
      · obtain ⟨rfl, same⟩ := List.append_inj' spelled rfl
        obtain rfl := List.singleton_inj.mp same
        exact stopsAtQuote_concat rfl notBackslash reads.1 paired
      · have ends := congrArg List.getLast? spelled
        rw [List.getLast?_append_of_ne_nil _ some, List.getLast?_concat] at ends
        exact absurd ascii (UInt8.not_lt.mpr (high opening (List.mem_of_getLast? ends)))
  · intro stops
    obtain ⟨body, closing, taken, escaped, isQuote, _⟩ := stops.exists_body notBackslash
    have inside : ∀ rune ∈ body ++ [closing], rune.IsRead := by
      intro rune member
      rw [← taken] at member
      exact reads rune (List.mem_of_mem_take member)
    rw [List.forall_mem_append, List.forall_mem_singleton] at inside
    have same : closing = Rune.ofByte opening :=
      inside.2.eq_ofByte ascii (by rw [isQuote, Rune.ofByte_char_toNat ascii])
    refine ⟨Rune.spell body, ?_, escaped.backslashesAtEnd inside.1⟩
    rw [taken, same, Rune.spell_append, Rune.spell_cons, Rune.spell_nil, List.append_nil, opens]

theorem charKind_ne_string (char : Char) : charKind char ≠ .string := by
  fun_cases charKind char <;> simp

theorem measure_of_string {first : Rune} (kind : (measure first rest).1 = .string) :
    (first.char = '"' ∨ first.char = '\'') ∧
      measure first rest = (.string, stringSize first.char rest) := by
  obtain found | ⟨_, same⟩ | ⟨_, same⟩ | ⟨_, same⟩ | ⟨_, same⟩ | ⟨_, _, same⟩ :=
    measure_cases first rest
  · exact found
  · simp [same] at kind
  · simp [same] at kind
  · rcases nameKind_cases (first :: rest.takeWhile continuesName) with isName | isName <;>
      simp [same, isName] at kind
  · simp [same] at kind
  · rw [same] at kind
    exact absurd kind (charKind_ne_string first.char)

theorem exists_string {text : Text} {index : Nat} {token : Token}
    (found : (tokenize text)[index]? = some token) (isString : token.kind = .string) :
    ∃ opening rest behind, Text.runes (text.drop token.position.offset) = opening :: rest ∧
      (opening.char = '"' ∨ opening.char = '\'') ∧
      token.text = Rune.spell (opening :: rest.take (stringSize opening.char rest)) ∧
      (tokenize text).drop (index + 1) =
        tokensFrom behind (rest.drop (stringSize opening.char rest)) := by
  obtain ⟨front, opening, rest, behind, whole, rfl, left⟩ :=
    exists_measure_of_getElem? found (by simp [isString])
  obtain ⟨isQuote, same⟩ := measure_of_string isString
  rw [same] at left
  refine ⟨opening, rest, behind, ?_, isQuote, by rw [same], left⟩
  have bytes := congrArg Rune.spell whole
  rw [Text.spell_runes, Rune.spell_append] at bytes
  have offset : (Position.start.after front).offset = (Rune.spell front).length := by
    rw [Position.offset_after]
    exact Nat.zero_add _
  rw [offset]
  nth_rewrite 1 [bytes]
  rw [List.drop_left, (Text.runes_spell_of_append whole).2]

theorem unquote?_isSome_iff_of_opening {text : Text} {offset : Nat} {opening : Rune}
    (whole : Text.runes (text.drop offset) = opening :: rest)
    (isQuote : opening.char = '"' ∨ opening.char = '\'') :
    (unquote? (Rune.spell (opening :: rest.take (stringSize opening.char rest)))).isSome = true ↔
      StopsAtQuote opening.char rest := by
  have reads : ∀ rune ∈ opening :: rest, rune.IsRead := by
    rw [← whole]
    exact fun rune => Text.isRead_of_mem_runes
  rw [List.forall_mem_cons] at reads
  obtain ⟨byte, ascii, rfl⟩ | ⟨high, _⟩ := reads.1.cases
  · refine unquote?_isSome_iff_stopsAtQuote ascii ?_ reads.2
    rcases isQuote with quote | quote <;> simp [quote]
  · rcases isQuote with quote | quote <;> rw [quote] at high <;> exact absurd high (by decide)

end Lexer

open DefaultValue

/--
The lexer and the reader of string defaults agree. A string token has a value exactly when the
lexer stopped at its closing quote, so only the last token may lack one, and what is quoted by the
formatter is one token with the value that was quoted.
-/
theorem stringReaders_agree (text : Text) :
    (∀ token ∈ tokenize text, token.kind = .string → ∃ opening rest,
      Text.runes (text.drop token.position.offset) = opening :: rest ∧
        (opening.char = '"' ∨ opening.char = '\'') ∧
        token.text = Rune.spell (opening :: rest.take (stringSize opening.char rest)) ∧
        ((unquote? token.text).isSome = true ↔ StopsAtQuote opening.char rest) ∧
        (unquote? token.text = none → stringSize opening.char rest = rest.length)) ∧
    (∀ index token next, (tokenize text)[index]? = some token →
      (tokenize text)[index + 1]? = some next → token.kind = .string → next.kind ≠ .eof →
        (unquote? token.text).isSome = true) ∧
    ∀ content, (tokenize (quoteString content)).map Token.toLexeme =
        [⟨.string, quoteString content⟩, ⟨.eof, []⟩] ∧
      unquote? (quoteString content) = some content := by
  refine ⟨?_, ?_, ?_⟩
  · intro token member isString
    obtain ⟨index, found⟩ := List.mem_iff_getElem?.mp member
    obtain ⟨opening, rest, _, whole, isQuote, spelled, _⟩ := exists_string found isString
    have agree := unquote?_isSome_iff_of_opening whole isQuote
    rw [← spelled] at agree
    refine ⟨opening, rest, whole, isQuote, spelled, agree, fun refused => ?_⟩
    refine (stopsAtQuote_or_runsOut opening.char rest).resolve_left fun stops => ?_
    have accepted := agree.mpr stops
    simp [refused] at accepted
  · intro index token next found nextFound isString inner
    obtain ⟨opening, rest, behind, whole, isQuote, spelled, left⟩ := exists_string found isString
    rw [spelled, unquote?_isSome_iff_of_opening whole isQuote]
    -- A string that runs out leaves nothing for another token.
    refine (stopsAtQuote_or_runsOut opening.char rest).resolve_right fun size => ?_
    rw [size, List.drop_length, tokensFrom_of_blank behind rfl] at left
    rw [← Nat.add_zero (index + 1), ← List.getElem?_drop, left] at nextFound
    obtain rfl := Option.some.inj nextFound
    exact inner rfl
  · intro content
    have read := lexemes_quoteString content []
    rw [List.append_nil, Text.runes_nil, lexemes_nil] at read
    exact ⟨by rw [tokenize, map_toLexeme_tokensFrom, read]; rfl, unquote?_quoteString content⟩

def unclosedText : Text := utf8 "\"a\\\"\\\\\" 'b\\'"

theorem stringReaders_agree_unclosed :
    (tokenize unclosedText)[0]? = some ⟨⟨.string, utf8 "\"a\\\"\\\\\""⟩, ⟨1, 1, 0⟩⟩ ∧
      (tokenize unclosedText)[1]? = some ⟨⟨.string, utf8 "'b\\'"⟩, ⟨1, 9, 8⟩⟩ ∧
      (unquote? (utf8 "\"a\\\"\\\\\"")).isSome = true ∧
      unquote? (utf8 "'b\\'") = none ∧
      ∃ opening rest, Text.runes (unclosedText.drop 8) = opening :: rest ∧
        ¬StopsAtQuote opening.char rest ∧ stringSize opening.char rest = rest.length := by
  have first : (tokenize unclosedText)[0]? =
      some ⟨⟨.string, utf8 "\"a\\\"\\\\\""⟩, ⟨1, 1, 0⟩⟩ := by decide +kernel
  have second : (tokenize unclosedText)[1]? = some ⟨⟨.string, utf8 "'b\\'"⟩, ⟨1, 9, 8⟩⟩ := by
    decide +kernel
  have refused : unquote? (utf8 "'b\\'") = none := by decide
  obtain ⟨agree, inner, _⟩ := stringReaders_agree unclosedText
  obtain ⟨opening, rest, whole, _, _, stops, runsOut⟩ :=
    agree _ (List.mem_of_getElem? second) rfl
  refine ⟨first, second, inner 0 _ _ first second rfl (by decide), refused, opening, rest, whole,
    ?_, runsOut refused⟩
  rw [← stops]
  simp [refused]

end EntitySchema
