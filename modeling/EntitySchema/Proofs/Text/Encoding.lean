import EntitySchema.Proofs.Text.Decoding
import EntitySchema.Yaml.Piece
import Mathlib.Algebra.Group.Nat.Defs

/-!
Characters written as UTF-8. An ASCII character is one byte below 0x80, every other one is a
sequence of bytes from 0x80 on, and reading such a sequence gives the character back.
-/

namespace EntitySchema

namespace Rune

theorem isContinuation_ofNat (code : Nat) :
    isContinuation (UInt8.ofNat (code % 64 + 128)) = true := by
  have value : (UInt8.ofNat (code % 64 + 128)).toNat = code % 64 + 128 :=
    UInt8.toNat_ofNat_of_lt' (show code % 64 + 128 < 256 by omega)
  simp only [isContinuation, Bool.and_eq_true, decide_eq_true_eq, UInt8.le_iff_toNat_le, value]
  exact ⟨Nat.le_add_left _ _, show code % 64 + 128 ≤ 191 by omega⟩

def sequences : List (Nat × Nat × Nat) := [(1, 0x80, 0xC0), (2, 0x800, 0xE0), (3, 0x10000, 0xF0)]

section Sequence

variable {count least mark lead : Nat}

theorem leading_lead (known : (count, least, mark) ∈ sequences) (small : lead < 2 ^ (6 - count)) :
    Yaml.Decoded.utf8Size? (UInt8.ofNat (lead + mark)) = some (count + 1) ∧
      ∀ rest, leading (UInt8.ofNat (lead + mark)) rest =
        (multibyte? count least lead (UInt8.ofNat (lead + mark)) rest).getD
          (malformed (UInt8.ofNat (lead + mark))) := by
  have value {code : Nat} (fits : code < 256) : (UInt8.ofNat code).toNat = code :=
    UInt8.toNat_ofNat_of_lt' fits
  simp only [sequences, List.mem_cons, Prod.mk.injEq, List.not_mem_nil, or_false] at known
  rcases known with ⟨rfl, rfl, rfl⟩ | ⟨rfl, rfl, rfl⟩ | ⟨rfl, rfl, rfl⟩
  all_goals
    simp only [Nat.reduceSub, Nat.reducePow] at small
    simp (disch := omega) only [Yaml.Decoded.utf8Size?, leading, UInt8.lt_iff_toNat_lt, value,
      UInt8.reduceToNat]
    split_ifs <;> first | omega | simp

theorem leading_sequence {char : Char} {tail : Text} (known : (count, least, mark) ∈ sequences)
    (small : lead < 2 ^ (6 - count)) (size : tail.length = count)
    (continued : tail.all isContinuation = true) (assembled : assemble lead tail = char.toNat)
    (lower : least ≤ char.toNat) (rest : Text) :
    Yaml.Decoded.utf8Size? (UInt8.ofNat (lead + mark)) = some (tail.length + 1) ∧
      leading (UInt8.ofNat (lead + mark)) (tail ++ rest) =
        ⟨char, UInt8.ofNat (lead + mark) :: tail⟩ := by
  obtain ⟨announced, read⟩ := leading_lead known small
  have taken : (tail ++ rest).take count = tail := List.take_left' size
  refine ⟨by rw [announced, size], ?_⟩
  simp only [read, multibyte?, taken, assembled]
  rw [if_pos ⟨size, continued, lower, char.valid⟩, Char.ofNat_toNat, Option.getD_some]

end Sequence

theorem leading_encode (char : Char) (rest : Text) :
    ∃ first tail, String.utf8EncodeChar char = first :: tail ∧
      Yaml.Decoded.utf8Size? first = some (tail.length + 1) ∧
      leading first (tail ++ rest) = ⟨char, first :: tail⟩ := by
  have bound : char.toNat < 0x110000 := by
    rcases char.valid with low | high
    · exact Nat.lt_trans low (by decide)
    · exact high.2
  have low (code : Nat) : (UInt8.ofNat (code % 64 + 128)).toNat - 128 = code % 64 := by
    rw [UInt8.toNat_ofNat_of_lt' (show code % 64 + 128 < 256 by omega)]
    omega
  simp only [String.utf8EncodeChar, Char.toNat_val]
  -- one byte, or a lead byte with one, two or three behind it
  split_ifs with one two three
  · have value : (UInt8.ofNat char.toNat).toNat = char.toNat :=
      UInt8.toNat_ofNat_of_lt' (show char.toNat < 256 by omega)
    have ascii : UInt8.ofNat char.toNat < 0x80 := by
      rw [UInt8.lt_iff_toNat_lt, value]
      exact Nat.lt_succ_of_le one
    refine ⟨_, [], rfl, ?_, ?_⟩
    · rw [Yaml.Decoded.utf8Size?, if_pos ascii, List.length_nil]
    · rw [leading, if_pos ascii, ofByte, value, Char.ofNat_toNat]
  · have known : (1, 0x80, 0xC0) ∈ sequences := by simp [sequences]
    refine ⟨_, [_], rfl, leading_sequence known ?_ rfl ?_ ?_ ?_ rest⟩
    · change _ < 32
      omega
    · simp [-UInt8.ofNat_add, isContinuation_ofNat]
    · simp only [assemble, List.foldl_cons, List.foldl_nil, low]
      omega
    · omega
  · have known : (2, 0x800, 0xE0) ∈ sequences := by simp [sequences]
    refine ⟨_, [_, _], rfl, leading_sequence known ?_ rfl ?_ ?_ ?_ rest⟩
    · change _ < 16
      omega
    · simp [-UInt8.ofNat_add, isContinuation_ofNat]
    · simp only [assemble, List.foldl_cons, List.foldl_nil, low]
      omega
    · omega
  · have known : (3, 0x10000, 0xF0) ∈ sequences := by simp [sequences]
    refine ⟨_, [_, _, _], rfl, leading_sequence known ?_ rfl ?_ ?_ ?_ rest⟩
    · change _ < 8
      omega
    · simp [-UInt8.ofNat_add, isContinuation_ofNat]
    · simp only [assemble, List.foldl_cons, List.foldl_nil, low]
      omega
    · omega

theorem isRead_encode (char : Char) : IsRead ⟨char, String.utf8EncodeChar char⟩ := by
  obtain ⟨first, tail, shape, _, read⟩ := leading_encode char []
  exact ⟨first, tail ++ [], by rw [shape, read]⟩

/-- A character is one byte, or a sequence of bytes that no ASCII character is spelled with. -/
theorem encode_cases (char : Char) :
    (char.toNat < 0x80 ∧ String.utf8EncodeChar char = [char.toNat.toUInt8]) ∨
      (0x80 ≤ char.toNat ∧ ∀ byte ∈ String.utf8EncodeChar char, 0x80 ≤ byte) := by
  obtain ⟨byte, ascii, same⟩ | ⟨high, _, bytes⟩ := (isRead_encode char).cases
  · have code : char.toNat = byte.toNat :=
      (congrArg (fun rune => rune.char.toNat) same).trans (ofByte_char_toNat ascii)
    have spelled : String.utf8EncodeChar char = [byte] := congrArg Rune.bytes same
    refine Or.inl ⟨code ▸ UInt8.lt_iff_toNat_lt.mp ascii, ?_⟩
    simp [spelled, code]
  · exact Or.inr ⟨high, bytes⟩

end Rune

namespace Text

@[simp]
theorem ofChars_nil : ofChars [] = [] := rfl

theorem ofChars_cons (char : Char) (chars : List Char) :
    ofChars (char :: chars) = String.utf8EncodeChar char ++ ofChars chars := rfl

@[simp]
theorem ofChars_append (left right : List Char) :
    ofChars (left ++ right) = ofChars left ++ ofChars right := List.flatMap_append

theorem ofChars_eq_nil {chars : List Char} : ofChars chars = [] ↔ chars = [] := by
  cases chars with
  | nil => simp
  | cons char chars => simp [ofChars_cons, String.utf8EncodeChar_ne_nil]

theorem ofChars_eq_cons {chars : List Char} {byte : Byte} {rest : Text} (ascii : byte < 0x80)
    (spelled : ofChars chars = byte :: rest) :
    ∃ others, chars = Char.ofNat byte.toNat :: others ∧ rest = ofChars others := by
  cases chars with
  | nil => simp at spelled
  | cons char chars =>
      rw [ofChars_cons] at spelled
      obtain ⟨low, same⟩ | ⟨_, high⟩ := Rune.encode_cases char
      · rw [same, List.singleton_append, List.cons.injEq] at spelled
        obtain ⟨rfl, rfl⟩ := spelled
        have value : char.toNat.toUInt8.toNat = char.toNat :=
          UInt8.toNat_ofNat_of_lt' (Nat.lt_trans low (by decide))
        exact ⟨chars, by rw [value, Char.ofNat_toNat], rfl⟩
      · obtain ⟨first, tail, shape, _⟩ := Rune.leading_encode char []
        rw [shape, List.cons_append, List.cons.injEq] at spelled
        have large := high first (by rw [shape]; exact List.mem_cons_self)
        rw [spelled.1] at large
        exact absurd ascii (UInt8.not_lt.mpr large)

end Text

end EntitySchema
