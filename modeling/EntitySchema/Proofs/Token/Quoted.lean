import EntitySchema.Proofs.Token.Written
import Mathlib.Data.List.Induction

/-!
Quoted strings. Any bytes between double quotes, with the escapes they need, are one token, and
resolving the escapes gives the bytes back.
-/

namespace EntitySchema

open Lexer

namespace DefaultValue

theorem quoteByte_cases (byte : Byte) :
    (byte = 0x5C ∨ byte = 0x22) ∧ quoteByte byte = [0x5C, byte] ∨
      byte = 0x0A ∧ quoteByte byte = [0x5C, 0x6E] ∨
      byte = 0x09 ∧ quoteByte byte = [0x5C, 0x74] ∨
      byte ≠ 0x5C ∧ byte ≠ 0x22 ∧ quoteByte byte = [byte] := by
  unfold quoteByte
  split_ifs with special newline tab
  · exact Or.inl ⟨by simpa using special, rfl⟩
  · exact Or.inr (Or.inl ⟨newline, rfl⟩)
  · exact Or.inr (Or.inr (Or.inl ⟨tab, rfl⟩))
  · simp only [Bool.or_eq_true, decide_eq_true_eq, not_or] at special
    exact Or.inr (Or.inr (Or.inr ⟨special.1, special.2, rfl⟩))

theorem resolveEscapes_cons {byte : Byte} (plain : byte ≠ 0x5C) (rest : Text) :
    resolveEscapes (byte :: rest) = byte :: resolveEscapes rest := by
  cases rest with
  | nil => rfl
  | cons next rest => simp [resolveEscapes, plain]

theorem resolveEscapes_quoteByte (byte : Byte) (rest : Text) :
    resolveEscapes (quoteByte byte ++ rest) = byte :: resolveEscapes rest := by
  obtain ⟨rfl | rfl, same⟩ | ⟨rfl, same⟩ | ⟨rfl, same⟩ | ⟨plain, _, same⟩ := quoteByte_cases byte
  · rw [same]; simp [resolveEscapes]
  · rw [same]; simp [resolveEscapes]
  · rw [same]; simp [resolveEscapes]
  · rw [same]; simp [resolveEscapes]
  · rw [same]
    exact resolveEscapes_cons plain rest

theorem resolveEscapes_flatMap (text : Text) : resolveEscapes (text.flatMap quoteByte) = text := by
  induction text with
  | nil => rfl
  | cons byte text ih => rw [List.flatMap_cons, resolveEscapes_quoteByte, ih]

theorem trailing_backslashes (text : Text) :
    (((text.flatMap quoteByte).reverse.takeWhile fun byte => byte = 0x5C).length) % 2 = 0 := by
  induction text using List.reverseRecOn with
  | nil => rfl
  | append_singleton text byte ih =>
      rw [List.flatMap_append, List.flatMap_singleton, List.reverse_append]
      obtain ⟨rfl | rfl, same⟩ | ⟨rfl, same⟩ | ⟨rfl, same⟩ | ⟨plain, _, same⟩ :=
        quoteByte_cases byte
      · simp only [same, List.reverse_cons, List.reverse_nil, List.nil_append, List.cons_append,
          decide_true, List.takeWhile_cons_of_pos, List.length_cons]
        omega
      · simp [same]
      · simp [same]
      · simp [same]
      · simp [same, plain]

theorem unquote?_cons {rest : Text} (inside : rest ≠ []) (quote : Byte) :
    unquote? (quote :: rest) =
      if rest.getLast? = some quote ∧
          (rest.dropLast.reverse.takeWhile fun byte => byte = 0x5C).length % 2 = 0 then
        some (resolveEscapes rest.dropLast)
      else none := by
  cases rest with
  | nil => contradiction
  | cons second others => rfl

theorem unquote?_quoteString (text : Text) : unquote? (quoteString text) = some text := by
  have shape : quoteString text = 0x22 :: (text.flatMap quoteByte ++ [0x22]) := rfl
  rw [shape, unquote?]
  · simp [trailing_backslashes, resolveEscapes_flatMap]
  · simp

end DefaultValue

namespace Lexer

/-- Runes in which a backslash takes the next rune with it and no quote stands alone. -/
inductive Escaped (quote : Char) : List Rune → Prop
  | nil : Escaped quote []
  | plain {rune : Rune} {runes : List Rune} : rune.char ≠ '\\' → rune.char ≠ quote →
      Escaped quote runes → Escaped quote (rune :: runes)
  | escape {backslash rune : Rune} {runes : List Rune} : backslash.char = '\\' →
      Escaped quote runes → Escaped quote (backslash :: rune :: runes)

theorem Escaped.append {quote : Char} {left right : List Rune} (first : Escaped quote left)
    (second : Escaped quote right) : Escaped quote (left ++ right) := by
  induction first with
  | nil => exact second
  | plain noBackslash noQuote _ ih => exact .plain noBackslash noQuote ih
  | escape backslash _ ih => exact .escape backslash ih

theorem stringSize_cons {rune : Rune} (notBackslash : rune.char ≠ '\\') (quote : Char)
    (rest : List Rune) :
    stringSize quote (rune :: rest) =
      if rune.char = quote then 1 else stringSize quote rest + 1 := by
  cases rest <;> simp [stringSize, notBackslash]

theorem stringSize_of_escaped {quote : Rune} {runes : List Rune}
    (escaped : Escaped quote.char runes) (notBackslash : quote.char ≠ '\\') (rest : List Rune) :
    stringSize quote.char (runes ++ quote :: rest) = runes.length + 1 := by
  induction escaped with
  | nil => simp [stringSize_cons notBackslash]
  | plain noBackslash noQuote _ ih => simp [stringSize_cons noBackslash, noQuote, ih]
  | escape backslash _ ih => simp [stringSize, backslash, ih]

theorem escaped_of_high {text : Text} (high : ∀ byte ∈ text, 0x80 ≤ byte) :
    Escaped '"' text.runes := by
  have large : ∀ rune ∈ text.runes, 0x80 ≤ rune.char.toNat := by
    intro rune member
    obtain ⟨byte, ascii, rfl⟩ | ⟨large, _, _⟩ := (Text.isRead_of_mem_runes member).cases
    · have inside : byte ∈ text := by
        rw [← Text.spell_runes text]
        exact List.mem_flatMap.mpr ⟨_, member, by simp [Rune.ofByte]⟩
      exact absurd ascii (UInt8.not_lt.mpr (high byte inside))
    · exact large
  generalize text.runes = runes at large
  induction runes with
  | nil => exact .nil
  | cons rune runes ih =>
      rw [List.forall_mem_cons] at large
      refine .plain ?_ ?_ (ih large.2) <;> intro same <;> rw [same] at large <;>
        exact absurd large.1 (by decide)

theorem quoteByte_of_high {byte : Byte} (high : 0x80 ≤ byte) :
    DefaultValue.quoteByte byte = [byte] := by
  have other {code : Byte} (ascii : code < 0x80) : byte ≠ code := by
    rintro rfl
    exact absurd ascii (UInt8.not_lt.mpr high)
  simp [DefaultValue.quoteByte, other (show 0x5C < 0x80 by decide),
    other (show 0x22 < 0x80 by decide), other (show 0x0A < 0x80 by decide),
    other (show 0x09 < 0x80 by decide)]

theorem flatMap_of_high {text : Text} (high : ∀ byte ∈ text, 0x80 ≤ byte) :
    text.flatMap DefaultValue.quoteByte = text := by
  induction text with
  | nil => rfl
  | cons byte text ih =>
      rw [List.forall_mem_cons] at high
      rw [List.flatMap_cons, quoteByte_of_high high.1, ih high.2, List.singleton_append]

theorem quoteByte_of_ascii {byte : Byte} (ascii : byte < 0x80) :
    (∀ inside ∈ DefaultValue.quoteByte byte, inside < 0x80) ∧
      Escaped '"' ((DefaultValue.quoteByte byte).map Rune.ofByte) := by
  obtain ⟨_, same⟩ | ⟨_, same⟩ | ⟨_, same⟩ | ⟨noBackslash, noQuote, same⟩ :=
    DefaultValue.quoteByte_cases byte
  · rw [same]
    exact ⟨by simpa using ascii, .escape (by decide) .nil⟩
  · rw [same]
    exact ⟨forall_mem_of_all (by decide), .escape (by decide) .nil⟩
  · rw [same]
    exact ⟨forall_mem_of_all (by decide), .escape (by decide) .nil⟩
  · have other {char : Char} {code : Byte} (different : byte ≠ code)
        (same : char.toNat = code.toNat) : (Rune.ofByte byte).char ≠ char := by
      rintro rfl
      rw [Rune.ofByte_char_toNat ascii] at same
      exact different (UInt8.toNat_inj.mp same)
    rw [same]
    exact ⟨by simpa using ascii, .plain (other noBackslash rfl) (other noQuote rfl) .nil⟩

theorem escaped_flatMap (text : Text) :
    Escaped '"' (Text.runes (text.flatMap DefaultValue.quoteByte)) := by
  -- Bytes from 0x80 on stay as they are, so runes can only be cut at the bytes below.
  induction length : text.length using Nat.strongRecOn generalizing text with
  | ind size ih =>
      have split := List.takeWhile_append_dropWhile (p := fun byte : Byte => 0x80 ≤ byte)
        (l := text)
      have high : ∀ byte ∈ text.takeWhile fun byte => 0x80 ≤ byte, 0x80 ≤ byte :=
        fun byte member => by simpa using List.mem_takeWhile_imp member
      generalize text.takeWhile (fun byte => decide (0x80 ≤ byte)) = front at split high
      have unchanged := flatMap_of_high high
      cases shape : text.dropWhile fun byte => 0x80 ≤ byte with
      | nil =>
          rw [shape, List.append_nil] at split
          rw [← split, unchanged]
          exact escaped_of_high high
      | cons byte rest =>
          have ascii : byte < 0x80 := by
            have failed := List.head?_dropWhile_not (fun byte : Byte => decide (0x80 ≤ byte)) text
            simpa [shape] using failed
          obtain ⟨plain, escaped⟩ := quoteByte_of_ascii ascii
          rw [shape] at split
          rw [← split, List.flatMap_append, unchanged, List.flatMap_cons, Text.runes_append,
            Text.runes_ascii_append plain]
          · refine (escaped_of_high high).append (escaped.append (ih rest.length ?_ rest rfl))
            have bound := congrArg List.length split
            simp only [List.length_append, List.length_cons] at bound
            omega
          · intro first member
            obtain ⟨head, others, written⟩ : ∃ head others,
                DefaultValue.quoteByte byte = head :: others := by
              apply List.exists_cons_of_ne_nil
              obtain ⟨_, same⟩ | ⟨_, same⟩ | ⟨_, same⟩ | ⟨_, _, same⟩ :=
                DefaultValue.quoteByte_cases byte <;> simp [same]
            rw [written, List.cons_append, List.head?_cons, Option.mem_some_iff] at member
            have small := plain first (by simp [written, member])
            simp [Rune.isContinuation, UInt8.not_le.mpr small]

theorem lexemes_quoteString (text tail : Text) :
    lexemes (Text.runes (DefaultValue.quoteString text ++ tail)) =
      ⟨.string, DefaultValue.quoteString text⟩ :: lexemes tail.runes := by
  have shape : DefaultValue.quoteString text ++ tail =
      0x22 :: (text.flatMap DefaultValue.quoteByte ++ 0x22 :: tail) := by
    simp [DefaultValue.quoteString, show utf8 "\"" = [0x22] from rfl]
  generalize escapedText : text.flatMap DefaultValue.quoteByte = escaped at shape
  have escapedRunes : Escaped (Rune.ofByte 0x22).char (Text.runes escaped) := by
    rw [← escapedText]
    exact escaped_flatMap text
  have behind : Text.runes (escaped ++ 0x22 :: tail) =
      Text.runes escaped ++ [Rune.ofByte 0x22] ++ tail.runes := by
    rw [Text.runes_append _ _ (by simp; decide), Text.runes_cons_ascii _ (by decide),
      List.append_assoc, List.singleton_append]
  have measured : Lexer.measure (Rune.ofByte 0x22) (Text.runes (escaped ++ 0x22 :: tail)) =
      (.string, (Text.runes escaped).length + 1) := by
    rw [behind, List.append_assoc, List.singleton_append,
      ← stringSize_of_escaped escapedRunes (by decide) tail.runes]
    rfl
  rw [shape, Text.runes_cons_ascii _ (by decide), lexemes_cons (by decide) measured, behind,
    List.take_left' (by simp), List.drop_left' (by simp)]
  simp [DefaultValue.quoteString, escapedText, Rune.ofByte, show utf8 "\"" = [0x22] from rfl]

end Lexer

end EntitySchema
