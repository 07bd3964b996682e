import EntitySchema.Proofs.Text.Decoding
import EntitySchema.Token.Lexer
import Mathlib.Data.List.Induction

/-!
Positions in a text. The position after some runes of a text is determined by the bytes they are
spelled with: the line counts the line feeds among them, and the column the runes behind the last
line feed.
-/

namespace EntitySchema

namespace Text

def lastLine (text : Text) : Text := (text.reverse.takeWhile fun byte => byte ≠ 0x0A).reverse

theorem lastLine_append_newline (text : Text) : lastLine (text ++ [0x0A]) = [] := by
  simp [lastLine]

theorem lastLine_append (text tail : Text) (sameLine : 0x0A ∉ tail) :
    lastLine (text ++ tail) = lastLine text ++ tail := by
  have passes : ∀ byte ∈ tail.reverse, decide (byte ≠ 0x0A) = true := by
    intro byte member
    rw [List.mem_reverse] at member
    simp only [decide_eq_true_eq]
    rintro rfl
    exact sameLine member
  simp only [lastLine, List.reverse_append]
  rw [List.takeWhile_append_of_pos passes]
  simp

theorem lastLine_cases (text : Text) :
    text = lastLine text ∨ ∃ front, text = front ++ 0x0A :: lastLine text := by
  have split := List.takeWhile_append_dropWhile (p := fun byte => decide (byte ≠ 0x0A))
    (l := text.reverse)
  cases behind : text.reverse.dropWhile fun byte => decide (byte ≠ 0x0A) with
  | nil =>
      left
      rw [behind, List.append_nil] at split
      rw [lastLine, split, List.reverse_reverse]
  | cons byte front =>
      right
      have newline : byte = 0x0A := by
        have failed := List.head?_dropWhile_not (fun byte => decide (byte ≠ 0x0A)) text.reverse
        rw [behind] at failed
        simpa using failed
      refine ⟨front.reverse, ?_⟩
      rw [behind, newline] at split
      have whole := congrArg List.reverse split
      rw [List.reverse_reverse, List.reverse_append, List.reverse_cons, List.append_assoc,
        List.singleton_append] at whole
      exact whole.symm

/-- Reading starts afresh at every line. -/
theorem runes_eq_append_lastLine (text tail : Text) :
    ∃ front, runes (text ++ tail) = front ++ runes (lastLine text ++ tail) ∧
      runes text = front ++ runes (lastLine text) := by
  obtain whole | ⟨front, whole⟩ := lastLine_cases text
  · exact ⟨[], by rw [← whole, List.nil_append], by rw [← whole, List.nil_append]⟩
  · have cut (line : Text) :
        runes (front ++ 0x0A :: line) = runes front ++ [Rune.ofByte 0x0A] ++ runes line := by
      rw [runes_append front (0x0A :: line) (by simp [Rune.isContinuation]),
        runes_cons_ascii line (by decide)]
      simp
    refine ⟨runes front ++ [Rune.ofByte 0x0A], ?_, ?_⟩
    · rw [← cut]
      nth_rewrite 1 [whole]
      rw [List.append_assoc, List.cons_append]
    · rw [← cut, ← whole]

end Text

namespace Position

def ofOffset (text : Text) (offset : Nat) : Position :=
  ⟨1 + (text.take offset).count 0x0A, 1 + (Text.lastLine (text.take offset)).runes.length, offset⟩

def Before (left right : Position) : Prop :=
  left.line < right.line ∨ left.line = right.line ∧ left.column < right.column

theorem Before.trans {left middle right : Position} (first : left.Before middle)
    (second : middle.Before right) : left.Before right := by
  unfold Before at *
  omega

@[simp]
theorem after_nil (position : Position) : position.after [] = position := rfl

theorem after_append (position : Position) (left right : List Rune) :
    position.after (left ++ right) = (position.after left).after right := by
  simp [after]

theorem after_singleton (position : Position) (rune : Rune) :
    position.after [rune] = position.advance rune := rfl

theorem offset_advance (position : Position) (rune : Rune) :
    (position.advance rune).offset = position.offset + rune.bytes.length := by
  unfold advance
  split <;> rfl

@[simp]
theorem offset_after (position : Position) (runes : List Rune) :
    (position.after runes).offset = position.offset + (Rune.spell runes).length := by
  induction runes generalizing position with
  | nil => simp
  | cons rune runes ih =>
      rw [← List.singleton_append, after_append, after_singleton, ih, offset_advance]
      simp [Nat.add_assoc]

theorem before_advance (position : Position) (rune : Rune) :
    position.Before (position.advance rune) := by
  unfold advance Before
  split
  · exact Or.inl (Nat.lt_succ_self _)
  · exact Or.inr ⟨rfl, Nat.lt_succ_self _⟩

theorem before_after (position : Position) {runes : List Rune} (nonempty : runes ≠ []) :
    position.Before (position.after runes) := by
  induction runes generalizing position with
  | nil => contradiction
  | cons rune runes ih =>
      rw [← List.singleton_append, after_append, after_singleton]
      by_cases last : runes = []
      · simpa [last] using before_advance position rune
      · exact (before_advance position rune).trans (ih _ last)

theorem newline_iff {rune : Rune} (read : rune.IsRead) :
    rune.char = '\n' ↔ rune = Rune.ofByte 0x0A := by
  constructor
  · intro newline
    exact read.eq_ofByte (by decide) (by rw [newline]; decide)
  · rintro rfl
    decide

theorem newline_notMem {rune : Rune} (read : rune.IsRead) (other : rune.char ≠ '\n') :
    0x0A ∉ rune.bytes := by
  obtain ⟨byte, ascii, rfl⟩ | ⟨_, _, high⟩ := read.cases
  · intro member
    simp only [Rune.ofByte, List.mem_singleton] at member
    subst member
    exact other (by decide)
  · intro member
    exact absurd (high _ member) (by decide)

theorem after_start_spell {front : List Rune} (read : (Rune.spell front).runes = front) :
    start.after front = ofOffset (Rune.spell front) (Rune.spell front).length := by
  simp only [ofOffset, List.take_length]
  induction front using List.reverseRecOn with
  | nil => rfl
  | append_singleton front rune ih =>
      have frontRead := (Text.runes_spell_of_append read).1
      have runeRead : rune.IsRead := by
        have member : rune ∈ (Rune.spell (front ++ [rune])).runes := by
          rw [read]
          simp
        exact Text.isRead_of_mem_runes member
      rw [after_append, ih frontRead, after_singleton]
      simp only [Rune.spell_append, Rune.spell_cons, Rune.spell_nil, List.append_nil,
        List.count_append, List.length_append]
      unfold advance
      by_cases newline : rune.char = '\n'
      · rw [if_pos newline, (newline_iff runeRead).mp newline]
        simp [Rune.ofByte, Text.lastLine_append_newline, Nat.add_assoc]
      · have sameLine := newline_notMem runeRead newline
        obtain ⟨others, whole, frontWhole⟩ :=
          Text.runes_eq_append_lastLine (Rune.spell front) rune.bytes
        have wholeSize := congrArg List.length whole
        have frontSize := congrArg List.length frontWhole
        rw [show Rune.spell front ++ rune.bytes = Rune.spell (front ++ [rune]) by simp,
          read] at wholeSize
        rw [frontRead] at frontSize
        rw [if_neg newline, Text.lastLine_append _ _ sameLine, List.count_eq_zero.mpr sameLine]
        simp only [List.length_append, List.length_singleton] at wholeSize frontSize
        simp only [Nat.add_zero, Position.mk.injEq, and_true, true_and]
        omega

end Position

end EntitySchema
