import EntitySchema.Proofs.Token.Position
import EntitySchema.Proofs.Token.Step
import Mathlib.Data.List.TakeWhile

/-!
Tokens are a segmentation of the text: their spans are disjoint and in order, only blanks stand
outside them, and each token knows its place. The lexer is followed step by step by `Segments`,
and every property of the token list is read off that.
-/

namespace EntitySchema

open Lexer

def Lexer.blankBytes : List Byte := [0x20, 0x09, 0x0D, 0x0A]

theorem Lexer.isBlank_of_mem_blankBytes {byte : Byte} (blank : byte ∈ blankBytes) :
    byte < 0x80 ∧ isBlank (Rune.ofByte byte) = true := by
  have all : ∀ byte ∈ blankBytes, byte < 0x80 ∧ isBlank (Rune.ofByte byte) = true :=
    forall_mem_of_all (by decide)
  exact all byte blank

namespace Token

def Covers (token : Token) (offset : Nat) : Prop :=
  token.position.offset ≤ offset ∧ offset < token.position.offset + token.text.length

end Token

/--
The tokens of a text from the runes `front` on: blanks and the end, or blanks, the runes of a
token, and the tokens behind them.
-/
inductive Segments (text : Text) : List Rune → List Token → Prop
  | done {front blanks} : text.runes = front ++ blanks →
      (∀ rune ∈ blanks, isBlank rune = true) →
      Segments text front [⟨⟨.eof, []⟩, Position.start.after (front ++ blanks)⟩]
  | token {front blanks taken back kind tokens} :
      text.runes = front ++ blanks ++ taken ++ back →
      (∀ rune ∈ blanks, isBlank rune = true) → taken ≠ [] → kind ≠ .eof →
      Segments text (front ++ blanks ++ taken) tokens →
      Segments text front
        (⟨⟨kind, Rune.spell taken⟩, Position.start.after (front ++ blanks)⟩ :: tokens)

theorem segments_tokensFrom (text : Text) (front runes : List Rune)
    (whole : text.runes = front ++ runes) :
    Segments text front (tokensFrom (Position.start.after front) runes) := by
  -- Every token takes at least one rune, so the rest is shorter.
  induction length : runes.length using Nat.strongRecOn generalizing front runes with
  | ind size ih =>
      have split := List.takeWhile_append_dropWhile (p := isBlank) (l := runes)
      have blanks : ∀ rune ∈ runes.takeWhile isBlank, isBlank rune = true :=
        fun rune member => List.mem_takeWhile_imp member
      cases shape : runes.dropWhile isBlank with
      | nil =>
          rw [shape, List.append_nil] at split
          rw [tokensFrom_of_blank _ shape, ← Position.after_append]
          exact Segments.done whole (split ▸ blanks)
      | cons first rest =>
          have behind := List.take_append_drop (measure first rest).2 rest
          have nested : text.runes = front ++ runes.takeWhile isBlank ++
              (first :: rest.take (measure first rest).2) ++ rest.drop (measure first rest).2 := by
            rw [whole]
            nth_rewrite 1 [← split]
            rw [shape]
            simp [behind]
          rw [tokensFrom_of_token _ shape, ← Position.after_append, ← Position.after_append]
          refine Segments.token nested blanks (by simp) (measure_kind_ne_eof first rest) ?_
          apply ih _ _ _ _ nested rfl
          have bound := congrArg List.length split
          rw [shape] at bound
          simp only [List.length_append, List.length_cons, List.length_drop] at bound ⊢
          omega

namespace Segments

variable {text : Text} {front : List Rune} {tokens : List Token}

theorem split (segments : Segments text front tokens) {token : Token} (member : token ∈ tokens) :
    ∃ more taken back, text.runes = front ++ more ++ taken ++ back ∧
      token.position = Position.start.after (front ++ more) ∧ token.text = Rune.spell taken ∧
      (token.kind = .eof ∧ taken = [] ∧ back = [] ∨ token.kind ≠ .eof ∧ taken ≠ []) := by
  induction segments with
  | @done front blanks whole blank =>
      rw [List.mem_singleton] at member
      subst member
      exact ⟨blanks, [], [], by simpa using whole, rfl, rfl, Or.inl ⟨rfl, rfl, rfl⟩⟩
  | @token front blanks taken back kind tokens whole blank nonempty other _ ih =>
      rcases List.mem_cons.mp member with rfl | later
      · exact ⟨blanks, taken, back, whole, rfl, rfl, Or.inr ⟨other, nonempty⟩⟩
      · obtain ⟨more, found, back, whole, place, spelled, kind⟩ := ih later
        refine ⟨blanks ++ taken ++ more, found, back, ?_, ?_, spelled, kind⟩
        · simpa using whole
        · simpa using place

theorem ends (segments : Segments text front tokens) :
    ∃ inner last, tokens = inner ++ [last] ∧ last.kind = .eof ∧ last.text = [] ∧
      last.position.offset = text.length ∧ ∀ token ∈ inner, token.kind ≠ .eof := by
  induction segments with
  | @done front blanks whole blank =>
      refine ⟨[], _, rfl, rfl, rfl, ?_, by simp⟩
      rw [Position.offset_after, ← whole, Text.spell_runes]
      exact Nat.zero_add _
  | @token front blanks taken back kind tokens whole blank nonempty other _ ih =>
      obtain ⟨inner, last, rfl, eof, empty, place, others⟩ := ih
      refine ⟨_ :: inner, last, rfl, eof, empty, place, ?_⟩
      intro token member
      rcases List.mem_cons.mp member with rfl | later
      · exact other
      · exact others token later

theorem spelled (segments : Segments text front tokens) {token : Token} (member : token ∈ tokens) :
    (text.drop token.position.offset).take token.text.length = token.text := by
  obtain ⟨more, taken, back, whole, place, spelled, _⟩ := segments.split member
  have bytes := congrArg Rune.spell whole
  rw [Text.spell_runes, Rune.spell_append, Rune.spell_append] at bytes
  have offset : token.position.offset = (Rune.spell (front ++ more)).length := by
    rw [place, Position.offset_after]
    exact Nat.zero_add _
  rw [offset, spelled, bytes, List.append_assoc, List.drop_left, List.take_left]

theorem text_ne_nil (segments : Segments text front tokens) {token : Token}
    (member : token ∈ tokens) (inner : token.kind ≠ .eof) : token.text ≠ [] := by
  obtain ⟨more, taken, back, whole, place, spelled, kind⟩ := segments.split member
  obtain ⟨eof, _⟩ | ⟨_, nonempty⟩ := kind
  · contradiction
  · obtain ⟨rune, taken, rfl⟩ := List.exists_cons_of_ne_nil nonempty
    have read : rune.IsRead := by
      have found : rune ∈ text.runes := by simp [whole]
      exact Text.isRead_of_mem_runes found
    rw [spelled, Rune.spell_cons]
    simp [read.bytes_ne_nil]

theorem placed (segments : Segments text front tokens) {token : Token} (member : token ∈ tokens) :
    token.position = Position.ofOffset text token.position.offset := by
  obtain ⟨more, taken, back, whole, place, _⟩ := segments.split member
  rw [List.append_assoc] at whole
  have bytes := congrArg Rune.spell whole
  rw [Text.spell_runes, Rune.spell_append] at bytes
  have after := Position.after_start_spell (Text.runes_spell_of_append whole).1
  have offset : token.position.offset = (Rune.spell (front ++ more)).length := by
    rw [place, after]
    rfl
  rw [offset, place, after]
  simp only [Position.ofOffset]
  rw [bytes, List.take_left, List.take_length]

theorem ordered (segments : Segments text front tokens) :
    tokens.Pairwise fun left right =>
      left.position.offset + left.text.length ≤ right.position.offset ∧
        left.position.offset < right.position.offset ∧ left.position.Before right.position := by
  induction segments with
  | done whole blank => simp
  | @token front blanks taken back kind tokens whole blank nonempty other behind ih =>
      refine List.pairwise_cons.mpr ⟨?_, ih⟩
      intro later member
      have spelled := List.length_pos_iff.mpr <| (Segments.token whole blank nonempty other
        behind).text_ne_nil List.mem_cons_self other
      obtain ⟨more, _, _, _, place, _⟩ := behind.split member
      rw [List.append_assoc _ taken, Position.after_append] at place
      rw [place]
      refine ⟨?_, ?_, Position.before_after _ (by simp [nonempty])⟩
      · simp only [Position.offset_after, Rune.spell_append, List.length_append]
        omega
      · simp only [Position.offset_after, Rune.spell_append, List.length_append] at spelled ⊢
        omega

theorem blank_byte {rune : Rune} (read : rune.IsRead) (blank : isBlank rune = true) {byte : Byte}
    (member : byte ∈ rune.bytes) : byte ∈ blankBytes := by
  have small : rune.char.toNat = 0x20 ∨ rune.char.toNat = 0x09 ∨ rune.char.toNat = 0x0D ∨
      rune.char.toNat = 0x0A := by
    simp only [isBlank, Bool.or_eq_true, decide_eq_true_eq] at blank
    rcases blank with ((same | same) | same) | same <;> rw [same] <;> decide
  obtain ⟨other, ascii, rfl⟩ | ⟨high, _, _⟩ := read.cases
  · rw [Rune.ofByte_char_toNat ascii] at small
    simp only [Rune.ofByte, List.mem_singleton] at member
    subst member
    simp only [blankBytes, List.mem_cons, List.not_mem_nil, or_false, ← UInt8.toNat_inj]
    exact small
  · omega

theorem blank_bytes {runes : List Rune} (read : ∀ rune ∈ runes, rune.IsRead)
    (blank : ∀ rune ∈ runes, isBlank rune = true) {byte : Byte}
    (member : byte ∈ Rune.spell runes) : byte ∈ blankBytes := by
  obtain ⟨rune, found, inside⟩ := List.mem_flatMap.mp member
  exact blank_byte (read rune found) (blank rune found) inside

theorem covered (segments : Segments text front tokens) {index : Nat} {byte : Byte}
    (found : text[index]? = some byte) (lower : (Rune.spell front).length ≤ index) :
    (∃ token ∈ tokens, token.Covers index) ∨ byte ∈ blankBytes := by
  induction segments with
  | @done front blanks whole blank =>
      right
      have read : ∀ rune ∈ blanks, rune.IsRead := by
        intro rune member
        have inside : rune ∈ text.runes := by simp [whole, member]
        exact Text.isRead_of_mem_runes inside
      rw [← Text.spell_runes text, whole, Rune.spell_append,
        List.getElem?_append_right lower] at found
      exact blank_bytes read blank (List.mem_of_getElem? found)
  | @token front blanks taken back kind tokens whole blank nonempty other behind ih =>
      have bytes := congrArg Rune.spell whole
      simp only [Text.spell_runes, Rune.spell_append] at bytes
      by_cases inBlanks : index < (Rune.spell (front ++ blanks)).length
      · right
        have read : ∀ rune ∈ blanks, rune.IsRead := by
          intro rune member
          have inside : rune ∈ text.runes := by simp [whole, member]
          exact Text.isRead_of_mem_runes inside
        simp only [Rune.spell_append, List.length_append] at inBlanks
        rw [bytes, List.append_assoc, List.append_assoc, List.getElem?_append_right lower,
          List.getElem?_append_left (by omega)] at found
        exact blank_bytes read blank (List.mem_of_getElem? found)
      · by_cases inTaken : index < (Rune.spell (front ++ blanks ++ taken)).length
        · left
          refine ⟨_, List.mem_cons_self, ?_, ?_⟩
          · simp only [Position.offset_after, Position.start]
            omega
          · simp only [Position.offset_after, Position.start]
            simp only [Rune.spell_append, List.length_append] at inTaken ⊢
            omega
        · obtain ⟨token, member, covers⟩ | blankByte := ih (by omega)
          · exact Or.inl ⟨token, List.mem_cons_of_mem _ member, covers⟩
          · exact Or.inr blankByte

end Segments

structure IsSegmentation (text : Text) (tokens : List Token) : Prop where
  ends : ∃ inner last, tokens = inner ++ [last] ∧ last.kind = .eof ∧ last.text = [] ∧
    last.position.offset = text.length ∧ ∀ token ∈ inner, token.kind ≠ .eof
  spelled : ∀ token ∈ tokens, token.kind ≠ .eof → token.text ≠ [] ∧
    (text.drop token.position.offset).take token.text.length = token.text
  ordered : tokens.Pairwise fun left right =>
    left.position.offset + left.text.length ≤ right.position.offset ∧
      left.position.offset < right.position.offset
  /-- A byte outside all pieces is a blank. -/
  outside : ∀ index byte, text[index]? = some byte →
    (∀ token ∈ tokens, ¬token.Covers index) → byte ∈ blankBytes
  line : ∀ token ∈ tokens,
    token.position.line = 1 + (text.take token.position.offset).count 0x0A
  /-- The column is one more than the number of runes between the last line feed and the token. -/
  column : ∀ token ∈ tokens, token.position.column =
    1 + (Text.lastLine (text.take token.position.offset)).runes.length
  counted : ∀ token ∈ tokens, 1 ≤ token.position.line ∧ 1 ≤ token.position.column
  increasing : tokens.Pairwise fun left right => left.position.Before right.position

/-- Splitting a text into tokens loses nothing and places every token, whatever the bytes are. -/
theorem tokenize_isSegmentation (text : Text) : IsSegmentation text (tokenize text) := by
  have segments : Segments text [] (tokenize text) := segments_tokensFrom text [] text.runes rfl
  constructor
  · exact segments.ends
  · intro token member inner
    exact ⟨segments.text_ne_nil member inner, segments.spelled member⟩
  · exact segments.ordered.imp fun order => ⟨order.1, order.2.1⟩
  · intro index byte found outside
    obtain ⟨token, member, covers⟩ | blank := segments.covered found (Nat.zero_le _)
    · exact absurd covers (outside token member)
    · exact blank
  · intro token member
    rw [segments.placed member]
    rfl
  · intro token member
    rw [segments.placed member]
    rfl
  · intro token member
    rw [segments.placed member]
    exact ⟨Nat.le_add_right _ _, Nat.le_add_right _ _⟩
  · exact segments.ordered.imp fun order => order.2.2

end EntitySchema
