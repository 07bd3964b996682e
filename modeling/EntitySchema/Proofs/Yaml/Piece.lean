import EntitySchema.Proofs.Text.Encoding

/-!
A stream in UTF-8 that has only allowed characters is fetched completely: the characters of its
pieces, one after another, are its characters, wherever the pieces are cut.
-/

namespace EntitySchema.Yaml

theorem ofUtf8_encode {char : Char} (allowed : isAllowed char = true) {first : Byte} {tail : Text}
    (spelled : String.utf8EncodeChar char = first :: tail) (rest : Text) :
    Decoded.ofUtf8 first (tail ++ rest) = .char char (tail.length + 1) := by
  obtain ⟨first', tail', spelled', size, read⟩ := Rune.leading_encode char rest
  obtain ⟨rfl, rfl⟩ := List.cons.inj (spelled.symm.trans spelled')
  have readable : (⟨char, first :: tail⟩ : Rune).isMalformed = false := by
    by_contra broken
    simp only [Rune.isMalformed, Bool.and_eq_true, decide_eq_true_eq, Bool.not_eq_false] at broken
    rw [← spelled, broken.1] at broken
    exact absurd broken.2 (by decide)
  have isChar : char.toNat.isValidChar := char.valid
  simp [Decoded.ofUtf8, size, read, readable, Decoded.ofCode, isChar, allowed]

theorem ofUtf8_incomplete {char : Char} {first : Byte} {tail rest : Text}
    (spelled : String.utf8EncodeChar char = first :: tail) (cut : rest.length < tail.length) :
    Decoded.ofUtf8 first rest = .incomplete := by
  obtain ⟨first', tail', spelled', size, _⟩ := Rune.leading_encode char []
  obtain ⟨rfl, rfl⟩ := List.cons.inj (spelled.symm.trans spelled')
  simp [Decoded.ofUtf8, size, cut]

/--
What decoding a number of leading bytes of some characters comes to: the characters that are in
them, and the first bytes of one that is cut off.
-/
structure Cut (chars : List Char) (count : Nat) (front back : List Char) (bytes : Text) :
    Prop where
  splits : chars = front ++ back
  behind : bytes ++ (Text.ofChars chars).drop count = Text.ofChars back
  short : ∀ char ∈ back.head?, bytes.length < (String.utf8EncodeChar char).length

theorem decodePiece?_take {chars : List Char} (allowed : ∀ char ∈ chars, isAllowed char = true)
    {count fuel : Nat} (enough : ((Text.ofChars chars).take count).length ≤ fuel) :
    ∃ front back bytes, decodePiece? .utf8 fuel ((Text.ofChars chars).take count) =
      some (front, bytes) ∧ Cut chars count front back bytes := by
  have stop (fuel : Nat) : decodePiece? .utf8 fuel [] = some ([], []) := by cases fuel <;> rfl
  induction chars generalizing count fuel with
  | nil => exact ⟨[], [], [], by simp [stop], ⟨rfl, by simp, by simp⟩⟩
  | cons char chars ih =>
      rw [List.forall_mem_cons] at allowed
      obtain ⟨first, tail, spelled, _⟩ := Rune.leading_encode char []
      have shape : Text.ofChars (char :: chars) = first :: (tail ++ Text.ofChars chars) := by
        rw [Text.ofChars_cons, spelled, List.cons_append]
      cases count with
      | zero =>
          refine ⟨[], char :: chars, [], by simp [stop], rfl, by simp, ?_⟩
          simp [Char.utf8Size_pos]
      | succ count =>
          rw [shape, List.take_succ_cons] at enough ⊢
          cases fuel with
          | zero => simp at enough
          | succ fuel =>
              rw [decodePiece?, Decoded.ofBytes]
              -- the piece may end inside of this character
              by_cases cut : count < tail.length
              · have few : ((tail ++ Text.ofChars chars).take count).length < tail.length :=
                  Nat.lt_of_le_of_lt (List.length_take_le _ _) cut
                refine ⟨[], char :: chars, first :: (tail ++ Text.ofChars chars).take count,
                  by rw [ofUtf8_incomplete spelled few], ⟨rfl, ?_, ?_⟩⟩
                · rw [shape, List.drop_succ_cons, List.cons_append, List.take_append_drop]
                · rintro _ ⟨⟩
                  simpa [spelled] using few
              · have whole : (tail ++ Text.ofChars chars).take count =
                    tail ++ (Text.ofChars chars).take (count - tail.length) := by
                  rw [List.take_append, List.take_of_length_le (Nat.le_of_not_lt cut)]
                rw [whole] at enough ⊢
                have fewer : ((Text.ofChars chars).take (count - tail.length)).length ≤ fuel := by
                  simp only [List.length_cons, List.length_append] at enough
                  omega
                obtain ⟨front, back, bytes, decoded, split⟩ := ih allowed.2 fewer
                refine ⟨char :: front, back, bytes, ?_, ⟨?_, ?_, split.short⟩⟩
                · rw [ofUtf8_encode allowed.1 spelled]
                  simp [decoded]
                · rw [split.splits, List.cons_append]
                · rw [shape, List.drop_succ_cons, List.drop_append, List.drop_of_length_le
                    (Nat.le_of_not_lt cut), List.nil_append, split.behind]

theorem piecesFrom_ofChars {chars : List Char} (allowed : ∀ char ∈ chars, isAllowed char = true)
    {fuel size : Nat} (enough : (Text.ofChars chars).length < fuel) (room : 4 ≤ size) :
    (piecesFrom .utf8 fuel size (Text.ofChars chars)).1.flatten = chars ∧
      (piecesFrom .utf8 fuel size (Text.ofChars chars)).2 = true := by
  induction fuel generalizing chars size with
  | zero => simp at enough
  | succ fuel ih =>
      obtain ⟨front, back, bytes, decoded, cut⟩ :=
        decodePiece?_take allowed (Nat.le_refl ((Text.ofChars chars).take size).length)
      have behind := cut.behind
      rw [piecesFrom, decoded]
      dsimp only
      split
      next nothing =>
        -- less than a character is left over, so none is left
        rw [List.isEmpty_iff] at nothing
        rw [nothing, List.append_nil] at behind
        cases back with
        | nil => simp [cut.splits, behind]
        | cons char back =>
            have short := cut.short char rfl
            rw [behind, Text.ofChars_cons, List.length_append] at short
            omega
      next more =>
        rw [behind]
        have smaller : (Text.ofChars back).length < fuel := by
          rw [List.isEmpty_iff, List.drop_eq_nil_iff, Nat.not_le] at more
          cases back with
          | nil => exact Nat.lt_of_lt_of_le (by simp; omega) (Nat.le_of_lt_succ enough)
          | cons char back =>
              have short := cut.short char rfl
              have few := Char.utf8Size_le_four char
              rw [String.length_utf8EncodeChar] at short
              rw [← behind, List.length_append, List.length_drop]
              omega
        have later := ih (fun char member => allowed char
          (cut.splits ▸ List.mem_append_right _ member)) smaller (show 4 ≤ pieceSize by decide)
        rw [List.flatten_cons, later.1, later.2, cut.splits]
        exact ⟨rfl, rfl⟩

theorem ofMark_ofChars {chars : List Char} (unmarked : chars.head? ≠ some (Char.ofNat 0xFEFF)) :
    Encoding.ofMark (Text.ofChars chars) = (.utf8, 0) := by
  cases chars with
  | nil => rfl
  | cons char chars =>
      obtain ⟨first, tail, spelled, size, read⟩ := Rune.leading_encode char []
      rw [Text.ofChars_cons, spelled, List.cons_append]
      unfold Encoding.ofMark
      split
      next same =>
        obtain ⟨rfl, _⟩ := List.cons.inj same
        simp [Decoded.utf8Size?] at size
      next same =>
        obtain ⟨rfl, _⟩ := List.cons.inj same
        simp [Decoded.utf8Size?] at size
      next same =>
        -- The bytes of a mark are those of one character, which does not stand first.
        obtain ⟨rfl, behind⟩ := List.cons.inj same
        have two : tail.length = 2 := by simpa [Decoded.utf8Size?] using size.symm
        obtain ⟨second, third, rfl⟩ := List.length_eq_two.mp two
        simp only [List.cons_append, List.cons.injEq] at behind
        obtain ⟨rfl, rfl, _⟩ := behind
        have marked : (Rune.leading 0xEF [0xBB, 0xBF]).char = Char.ofNat 0xFEFF := by decide
        rw [List.append_nil] at read
        rw [read] at marked
        exact absurd (congrArg some marked) unmarked
      next => rfl

theorem piecesOf_ofChars {chars : List Char} (allowed : ∀ char ∈ chars, isAllowed char = true)
    (unmarked : chars.head? ≠ some (Char.ofNat 0xFEFF)) :
    (piecesOf (Text.ofChars chars)).1.flatten = chars ∧
      (piecesOf (Text.ofChars chars)).2 = true := by
  simp only [piecesOf, ofMark_ofChars unmarked, Nat.sub_zero, List.drop_zero]
  exact piecesFrom_ofChars allowed (Nat.lt_succ_self _) (by decide)

end EntitySchema.Yaml
