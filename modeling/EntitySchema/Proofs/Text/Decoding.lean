import EntitySchema.Text.Rune
import Mathlib.Data.List.Basic
import Mathlib.Tactic.SplitIfs

/-!
Reading bytes as runes loses nothing, and it is local: what a rune is depends on its own bytes,
so a text can be cut before any byte that continues no sequence, and any whole number of runes
can be read on their own.
-/

namespace EntitySchema

theorem forall_mem_of_all {α : Type} {property : α → Prop} [DecidablePred property]
    {list : List α} (all : (list.all fun item => decide (property item)) = true) :
    ∀ item ∈ list, property item := by
  simpa using all

namespace Rune

def IsRead (rune : Rune) : Prop := ∃ first rest, rune = leading first rest

theorem multibyte?_eq_some {count least lead : Nat} {first : Byte} {rest : Text} {rune : Rune}
    (found : multibyte? count least lead first rest = some rune) :
    rune.bytes = first :: rest.take count ∧ rune.bytes.length = count + 1 ∧
      (rest.take count).all isContinuation = true ∧ least ≤ rune.char.toNat := by
  simp only [multibyte?] at found
  split at found
  next valid =>
    obtain ⟨size, continued, lower, isChar⟩ := valid
    cases found
    refine ⟨rfl, by simpa using size, continued, ?_⟩
    rw [Char.ofNat, dif_pos isChar]
    exact lower
  next => simp at found

theorem multibyte?_congr {count least lead : Nat} {first : Byte} {left right : Text}
    (same : left.take count = right.take count) :
    multibyte? count least lead first left = multibyte? count least lead first right := by
  simp only [multibyte?, same]

theorem multibyte?_short {count least lead : Nat} {first : Byte} {rest : Text}
    (short : rest.length < count) : multibyte? count least lead first rest = none := by
  simp only [multibyte?]
  rw [if_neg]
  rintro ⟨size, _⟩
  rw [List.length_take] at size
  omega

theorem multibyte?_broken {count least lead : Nat} {first : Byte} {rest : Text}
    (broken : (rest.take count).all isContinuation = false) :
    multibyte? count least lead first rest = none := by
  simp [multibyte?, broken]

theorem leading_ascii {first : Byte} (rest : Text) (ascii : first < 0x80) :
    leading first rest = ofByte first := by
  simp [leading, ascii]

/--
The first byte alone decides how reading goes on: it is a rune of its own below 0x80, it can start
nothing, or it announces a number of continuation bytes.
-/
theorem leading_shape (first : Byte) :
    (first < 0x80 ∧ ∀ rest, leading first rest = ofByte first) ∨
      (0x80 ≤ first ∧ ∀ rest, leading first rest = malformed first) ∨
      (0x80 ≤ first ∧ ∃ count least lead, 0x80 ≤ least ∧ ∀ rest, leading first rest =
        (multibyte? count least lead first rest).getD (malformed first)) := by
  by_cases ascii : first < 0x80
  · exact Or.inl ⟨ascii, fun rest => leading_ascii rest ascii⟩
  · have high : 0x80 ≤ first := UInt8.not_lt.mp ascii
    right
    simp only [leading, ascii, if_false]
    split_ifs
    · exact Or.inl ⟨high, fun _ => rfl⟩
    · exact Or.inr ⟨high, 1, 0x80, _, by omega, fun _ => rfl⟩
    · exact Or.inr ⟨high, 2, 0x800, _, by omega, fun _ => rfl⟩
    · exact Or.inr ⟨high, 3, 0x10000, _, by omega, fun _ => rfl⟩
    · exact Or.inl ⟨high, fun _ => rfl⟩

theorem leading_bytes (first : Byte) (rest : Text) :
    (leading first rest).bytes =
      first :: rest.take ((leading first rest).bytes.length - 1) := by
  obtain ⟨_, read⟩ | ⟨_, read⟩ | ⟨_, count, least, lead, _, read⟩ := leading_shape first
  · simp [read, ofByte]
  · simp [read, malformed]
  · rw [read]
    cases found : multibyte? count least lead first rest with
    | none => simp [malformed]
    | some rune =>
        obtain ⟨bytes, size, _, _⟩ := multibyte?_eq_some found
        simp only [Option.getD_some, size, Nat.add_sub_cancel]
        exact bytes

theorem leading_append (first : Byte) (rest tail : Text)
    (boundary : ∀ byte ∈ tail.head?, isContinuation byte = false) :
    leading first (rest ++ tail) = leading first rest := by
  obtain ⟨_, read⟩ | ⟨_, read⟩ | ⟨_, count, least, lead, _, read⟩ := leading_shape first
  · simp [read]
  · simp [read]
  · rw [read, read]
    congr 1
    by_cases enough : count ≤ rest.length
    · exact multibyte?_congr (List.take_append_of_le_length enough)
    · have short : rest.length < count := by omega
      rw [multibyte?_short short]
      cases tail with
      | nil => exact multibyte?_short (by simpa using enough)
      | cons next tail =>
          apply multibyte?_broken
          rw [List.all_eq_false]
          refine ⟨next, ?_, by simpa using boundary next⟩
          rw [List.take_append, List.take_of_length_le (by omega)]
          have room : count - rest.length = count - rest.length - 1 + 1 := by omega
          rw [room]
          simp

theorem leading_prefix (first : Byte) {rest shorter : Text} (cut : shorter <+: rest)
    (enough : (leading first rest).bytes.length ≤ shorter.length + 1) :
    leading first shorter = leading first rest := by
  obtain ⟨_, read⟩ | ⟨_, read⟩ | ⟨_, count, least, lead, _, read⟩ := leading_shape first
  · simp [read]
  · simp [read]
  · rw [read] at enough ⊢
    rw [read]
    congr 1
    by_cases long : count ≤ shorter.length
    · obtain ⟨tail, rfl⟩ := cut
      exact multibyte?_congr (List.take_append_of_le_length long).symm
    · have short : shorter.length < count := by omega
      rw [multibyte?_short short]
      cases found : multibyte? count least lead first rest with
      | none => rfl
      | some rune =>
          obtain ⟨_, size, _, _⟩ := multibyte?_eq_some found
          simp only [found, Option.getD_some] at enough
          omega

theorem IsRead.cases {rune : Rune} (read : rune.IsRead) :
    (∃ byte < 0x80, rune = ofByte byte) ∨
      (0x80 ≤ rune.char.toNat ∧ rune.bytes ≠ [] ∧ ∀ byte ∈ rune.bytes, 0x80 ≤ byte) := by
  obtain ⟨first, rest, rfl⟩ := read
  obtain ⟨ascii, same⟩ | ⟨high, same⟩ | ⟨high, count, least, lead, lower, same⟩ :=
    leading_shape first
  · exact Or.inl ⟨first, ascii, same rest⟩
  · right
    rw [same]
    exact ⟨by simp [malformed, replacement], by simp [malformed],
      by simpa [malformed] using high⟩
  · right
    rw [same]
    cases found : multibyte? count least lead first rest with
    | none =>
        exact ⟨by simp [malformed, replacement], by simp [malformed],
          by simpa [malformed] using high⟩
    | some rune =>
        obtain ⟨bytes, _, continued, bound⟩ := multibyte?_eq_some found
        refine ⟨by simpa using Nat.le_trans lower bound, by simp [bytes], ?_⟩
        intro byte member
        simp only [Option.getD_some, bytes, List.mem_cons] at member
        rcases member with rfl | member
        · exact high
        · have tail := List.all_eq_true.mp continued byte member
          simp only [isContinuation, Bool.and_eq_true, decide_eq_true_eq] at tail
          exact tail.1

theorem IsRead.bytes_ne_nil {rune : Rune} (read : rune.IsRead) : rune.bytes ≠ [] := by
  obtain ⟨byte, _, rfl⟩ | ⟨_, nonempty, _⟩ := read.cases
  · simp [ofByte]
  · exact nonempty

@[simp]
theorem ofByte_char_toNat {byte : Byte} (ascii : byte < 0x80) :
    (ofByte byte).char.toNat = byte.toNat := by
  have bound : byte.toNat < 0x80 := UInt8.lt_iff_toNat_lt.mp ascii
  have isChar : byte.toNat.isValidChar := Or.inl (by omega)
  rw [ofByte, Char.ofNat, dif_pos isChar]
  rfl

theorem IsRead.eq_ofByte {rune : Rune} (read : rune.IsRead) {byte : Byte}
    (ascii : byte < 0x80) (char : rune.char.toNat = byte.toNat) : rune = ofByte byte := by
  have bound : byte.toNat < 0x80 := UInt8.lt_iff_toNat_lt.mp ascii
  obtain ⟨other, otherAscii, rfl⟩ | ⟨high, _, _⟩ := read.cases
  · rw [ofByte_char_toNat otherAscii] at char
    rw [UInt8.toNat_inj.mp char]
  · omega

@[simp]
theorem spell_nil : spell [] = [] := rfl

@[simp]
theorem spell_cons (rune : Rune) (runes : List Rune) :
    spell (rune :: runes) = rune.bytes ++ spell runes := rfl

@[simp]
theorem spell_append (left right : List Rune) :
    spell (left ++ right) = spell left ++ spell right := by
  simp [spell]

theorem spell_map_ofByte (text : Text) : spell (text.map ofByte) = text := by
  induction text with
  | nil => rfl
  | cons byte text ih => simp [ih, ofByte]

end Rune

namespace Text

open Rune

@[simp]
theorem runes_nil : runes [] = [] := by
  simp [runes, runesAfter]

theorem runesAfter_eq_runes_drop (skip : Nat) (text : Text) :
    runesAfter skip text = runes (text.drop skip) := by
  induction text generalizing skip with
  | nil => simp [runes, runesAfter]
  | cons first rest ih =>
      cases skip with
      | zero => rfl
      | succ skip => simpa [runesAfter] using ih skip

theorem runes_cons (first : Byte) (rest : Text) :
    runes (first :: rest) =
      leading first rest :: runes (rest.drop ((leading first rest).bytes.length - 1)) := by
  rw [← runesAfter_eq_runes_drop]
  rfl

theorem runes_cons_ascii {first : Byte} (rest : Text) (ascii : first < 0x80) :
    runes (first :: rest) = ofByte first :: runes rest := by
  rw [runes_cons, leading_ascii rest ascii]
  rfl

theorem runes_ascii_append {text : Text} (ascii : ∀ byte ∈ text, byte < 0x80) (tail : Text) :
    runes (text ++ tail) = text.map ofByte ++ runes tail := by
  induction text with
  | nil => rfl
  | cons byte text ih =>
      rw [List.forall_mem_cons] at ascii
      rw [List.cons_append, runes_cons_ascii _ ascii.1, ih ascii.2, List.map_cons,
        List.cons_append]

@[simp]
theorem spell_runes (text : Text) : spell (runes text) = text := by
  induction length : text.length using Nat.strongRecOn generalizing text with
  | ind size ih =>
      cases text with
      | nil => simp
      | cons first rest =>
          have shorter : (rest.drop ((leading first rest).bytes.length - 1)).length < size := by
            simp only [List.length_cons] at length
            simp only [List.length_drop]
            omega
          rw [runes_cons, spell_cons, ih _ shorter _ rfl]
          nth_rewrite 1 [leading_bytes first rest]
          simp

theorem isRead_of_mem_runes {text : Text} {rune : Rune} (member : rune ∈ runes text) :
    rune.IsRead := by
  induction length : text.length using Nat.strongRecOn generalizing text with
  | ind size ih =>
      cases text with
      | nil => simp at member
      | cons first rest =>
          rw [runes_cons, List.mem_cons] at member
          rcases member with rfl | member
          · exact ⟨first, rest, rfl⟩
          · apply ih _ _ member rfl
            simp only [List.length_cons] at length
            simp only [List.length_drop]
            omega

/-- A text may be cut in front of any byte that does not continue a sequence. -/
theorem runes_append (text tail : Text)
    (boundary : ∀ byte ∈ tail.head?, isContinuation byte = false) :
    runes (text ++ tail) = runes text ++ runes tail := by
  induction length : text.length using Nat.strongRecOn generalizing text with
  | ind size ih =>
      cases text with
      | nil => simp
      | cons first rest =>
          have inside : (leading first rest).bytes.length - 1 ≤ rest.length := by
            have size := congrArg List.length (leading_bytes first rest)
            simp only [List.length_cons, List.length_take] at size
            omega
          rw [List.cons_append, runes_cons, runes_cons, leading_append first rest tail boundary,
            List.drop_append_of_le_length inside, List.cons_append, ih _ _ _ rfl]
          simp only [List.length_cons] at length
          simp only [List.length_drop]
          omega

theorem runes_spell_of_append {text : Text} {front back : List Rune}
    (whole : runes text = front ++ back) :
    runes (spell front) = front ∧ runes (spell back) = back := by
  induction front generalizing text with
  | nil =>
      refine ⟨by simp, ?_⟩
      rw [List.nil_append] at whole
      rw [← whole, spell_runes]
  | cons rune front ih =>
      cases text with
      | nil => simp at whole
      | cons first rest =>
          rw [runes_cons, List.cons_append, List.cons.injEq] at whole
          obtain ⟨rfl, whole⟩ := whole
          obtain ⟨frontRead, backRead⟩ := ih whole
          refine ⟨?_, backRead⟩
          have bytes := leading_bytes first rest
          generalize sizeEq : (leading first rest).bytes.length - 1 = size at bytes whole
          have behind : rest.drop size = spell front ++ spell back := by
            rw [← spell_append, ← whole, spell_runes]
          have shape : rest = rest.take size ++ spell front ++ spell back := by
            rw [List.append_assoc, ← behind, List.take_append_drop]
          have taken : (rest.take size).length = size := by
            have count := congrArg List.length bytes
            simp only [List.length_cons] at count
            omega
          have same : leading first (rest.take size ++ spell front) = leading first rest := by
            apply leading_prefix
            · exact ⟨spell back, shape.symm⟩
            · simp only [List.length_append, taken]
              omega
          rw [spell_cons, bytes, List.cons_append, runes_cons, same, sizeEq,
            List.drop_append_of_le_length (by omega), List.drop_of_length_le (by omega),
            List.nil_append, frontRead]

end Text

end EntitySchema
