import EntitySchema.Field.Parse
import EntitySchema.Proofs.Relation.Dispatch
import Mathlib.Data.List.Forall2
import Mathlib.Tactic.SplitIfs

/-!
Reading looks at the tokens of an expression and never at its layout. Two texts whose tokens agree
in kind and spelling are read alike, and where both are refused they are refused at the same token.
-/

namespace EntitySchema

open Lexer Expression

/-- The tokens of two texts agree one by one in kind and spelling; their places may differ. -/
def SameTokens (left right : Text) : Prop :=
  List.Forall₂ (fun first second : Token => first.kind = second.kind ∧ first.text = second.text)
    (tokenize left) (tokenize right)

/-- The same complaint, which has no place in either text or blames tokens of the same number. -/
structure ParseError.SameIn (left right : Text) (first second : ParseError) : Prop where
  kind : first.kind = second.kind
  message : first.cause.message = second.cause.message
  field : first.field = second.field
  position : first.position = Position.unknown ∧ second.position = Position.unknown ∨
    ∃ (index : Nat) (before behind : Token), (tokenize left)[index]? = some before ∧
      (tokenize right)[index]? = some behind ∧ first.position = before.position ∧
      second.position = behind.position

inductive ReadAlike {α : Type} (left right : Text) :
    Except ParseError α → Except ParseError α → Prop
  | accepted (value : α) : ReadAlike left right (.ok value) (.ok value)
  | refused {first second : ParseError} : first.SameIn left right second →
      ReadAlike left right (.error first) (.error second)

namespace Text

theorem isSpace_of_isBlank {rune : Rune} (blank : Lexer.isBlank rune = true) :
    isSpace rune.char = true := by
  simp only [Lexer.isBlank, Bool.or_eq_true, decide_eq_true_eq] at blank
  rcases blank with ((same | same) | same) | same <;> rw [same] <;> decide

theorem isSpace_iff_tokens {text : Text} {front rest : List Rune} {tokens : List Token}
    (segments : Segments text front tokens) (whole : text.runes = front ++ rest) :
    (∀ rune ∈ rest, isSpace rune.char = true) ↔
      ∀ token ∈ tokens, token.text.isBlank = true := by
  induction segments generalizing rest with
  | @done front blanks shape blank =>
      obtain rfl : blanks = rest := List.append_cancel_left (shape.symm.trans whole)
      constructor
      · intro _ token member
        rw [List.mem_singleton] at member
        subst member
        rfl
      · intro _ rune member
        exact isSpace_of_isBlank (blank rune member)
  | @token front blanks taken back kind tokens shape blank _ _ _ ih =>
      obtain rfl : blanks ++ taken ++ back = rest := by
        rw [whole, List.append_assoc, List.append_assoc, List.append_cancel_left_eq] at shape
        rw [shape, List.append_assoc]
      have spelled : (Rune.spell taken).runes = taken := by
        rw [List.append_assoc] at shape
        exact (runes_spell_of_append (runes_spell_of_append shape).2).1
      have isBlankToken : (Rune.spell taken).isBlank = true ↔
          ∀ rune ∈ taken, isSpace rune.char = true := by
        rw [isBlank, spelled, List.all_eq_true]
      rw [List.forall_mem_cons, isBlankToken, ← ih shape]
      constructor
      · intro spaces
        constructor
        · intro rune member
          exact spaces rune (by simp [member])
        · intro rune member
          exact spaces rune (by simp [member])
      · rintro ⟨takenSpaces, backSpaces⟩ rune member
        simp only [List.append_assoc, List.mem_append] at member
        rcases member with inBlanks | inTaken | inBack
        · exact isSpace_of_isBlank (blank rune inBlanks)
        · exact takenSpaces rune inTaken
        · exact backSpaces rune inBack

theorem isBlank_iff_tokens (text : Text) :
    text.isBlank = true ↔ ∀ token ∈ tokenize text, token.text.isBlank = true := by
  have segments : Segments text [] (tokenize text) := segments_tokensFrom text [] text.runes rfl
  rw [← isSpace_iff_tokens segments (List.nil_append _).symm, isBlank, List.all_eq_true]

end Text

theorem sameTokens_iff {left right : Text} :
    SameTokens left right ↔
      (tokenize left).map Token.toLexeme = (tokenize right).map Token.toLexeme := by
  have agree (first second : Token) :
      first.kind = second.kind ∧ first.text = second.text ↔ first.toLexeme = second.toLexeme := by
    rw [Lexeme.mk.injEq]
  rw [← List.forall₂_eq_eq_eq, List.forall₂_map_left_iff, List.forall₂_map_right_iff]
  simp only [SameTokens, agree]

namespace SameTokens

variable {left right : Text}

theorem symm (same : SameTokens left right) : SameTokens right left := by
  have flipped := List.Forall₂.flip same
  exact flipped.imp fun first second agree => ⟨agree.1.symm, agree.2.symm⟩

theorem length_eq (same : SameTokens left right) :
    (tokenize left).length = (tokenize right).length :=
  List.Forall₂.length_eq same

theorem lexemes_eq (same : SameTokens left right) :
    lexemesOf (tokenize left) = lexemesOf (tokenize right) := by
  rw [lexemesOf, lexemesOf, List.map_dropLast, List.map_dropLast, sameTokens_iff.mp same]

theorem isBlank_of_isBlank (same : SameTokens left right) (blank : left.isBlank = true) :
    right.isBlank = true := by
  rw [Text.isBlank_iff_tokens] at blank ⊢
  intro token member
  obtain ⟨index, bound, rfl⟩ := List.getElem_of_mem member
  have leftBound : index < (tokenize left).length := by
    rw [same.length_eq]
    exact bound
  have agree := List.Forall₂.get same leftBound bound
  have spelled := blank _ (List.getElem_mem leftBound)
  rwa [show (tokenize left)[index].text = (tokenize right)[index].text from agree.2] at spelled

theorem isBlank_eq (same : SameTokens left right) : left.isBlank = right.isBlank := by
  rw [Bool.eq_iff_iff]
  exact ⟨same.isBlank_of_isBlank, same.symm.isBlank_of_isBlank⟩

theorem locate (same : SameTokens left right) (fault : Fault) :
    (fault.locate (tokenize left)).SameIn left right (fault.locate (tokenize right)) := by
  refine ⟨rfl, rfl, rfl, ?_⟩
  by_cases inside : fault.index < (tokenize left).length
  · right
    have insideRight : fault.index < (tokenize right).length := by
      rw [← same.length_eq]
      exact inside
    refine ⟨fault.index, (tokenize left)[fault.index], (tokenize right)[fault.index],
      List.getElem?_eq_getElem inside, List.getElem?_eq_getElem insideRight, ?_, ?_⟩
    · simp [Fault.locate, inside]
    · simp [Fault.locate, insideRight]
  · left
    have outsideRight : ¬fault.index < (tokenize right).length := by
      rw [← same.length_eq]
      exact inside
    constructor
    · simp [Fault.locate, inside]
    · simp [Fault.locate, outsideRight]

theorem read {α : Type} (same : SameTokens left right)
    (leftFits : left.length ≤ maxExpressionLength) (rightFits : right.length ≤ maxExpressionLength)
    (blank : Cause)
    (readLexemes : List Lexeme → Except Fault α) :
    ReadAlike left right (Expression.read blank readLexemes left)
      (Expression.read blank readLexemes right) := by
  unfold Expression.read
  rw [← same.isBlank_eq, if_neg (Nat.not_lt.mpr leftFits), if_neg (Nat.not_lt.mpr rightFits)]
  split_ifs with isBlank
  · exact .refused ⟨rfl, rfl, rfl, Or.inl ⟨rfl, rfl⟩⟩
  · dsimp only
    rw [← same.lexemes_eq]
    cases readLexemes (lexemesOf (tokenize left)) with
    | ok value => exact .accepted value
    | error fault => exact .refused (same.locate fault)

theorem isRelationText_eq (same : SameTokens left right) :
    Relation.isRelationText left = Relation.isRelationText right := by
  have lexemes := same.lexemes_eq
  rw [lexemesOf_tokenize, lexemesOf_tokenize] at lexemes
  rw [Bool.eq_iff_iff, Relation.isRelationText_iff_lexemes, Relation.isRelationText_iff_lexemes,
    lexemes]

end SameTokens

theorem offset_le_iff {text : Text} {first second : Nat} {before behind : Token}
    (firstAt : (tokenize text)[first]? = some before)
    (secondAt : (tokenize text)[second]? = some behind) :
    before.position.offset ≤ behind.position.offset ↔ first ≤ second := by
  have segments : Segments text [] (tokenize text) := segments_tokensFrom text [] text.runes rfl
  have ordered := List.pairwise_iff_getElem.mp segments.ordered
  obtain ⟨firstBound, rfl⟩ := List.getElem?_eq_some_iff.mp firstAt
  obtain ⟨secondBound, rfl⟩ := List.getElem?_eq_some_iff.mp secondAt
  constructor
  · intro offsets
    by_contra later
    have reversed := (ordered second first secondBound firstBound (by omega)).2.1
    omega
  · intro numbers
    by_cases same : first = second
    · subst same
      exact Nat.le_refl _
    · exact Nat.le_of_lt (ordered first second firstBound secondBound (by omega)).2.1

theorem findIdx?_equals (text : Text) :
    ((lexemesOf (tokenize text)).findIdx? fun lexeme => lexeme.kind = .equals) =
      (tokenize text).findIdx? fun token => token.kind = .equals := by
  have segments : Segments text [] (tokenize text) := segments_tokensFrom text [] text.runes rfl
  obtain ⟨inner, last, whole, eof, _⟩ := segments.ends
  have noEquals : [last].findIdx? (fun token => decide (token.kind = .equals)) = none := by
    simp [eof]
  rw [lexemesOf, whole, List.dropLast_concat, List.findIdx?_append, noEquals, List.findIdx?_map]
  simp [Function.comp_def]

/--
Parsing depends on the kinds and spellings of the tokens alone: fields and relations are read alike
from two texts that differ in layout only, and both or neither start with an arrow.
-/
theorem reads_alike_of_sameTokens {left right : Text} (leftFits : left.length ≤ maxExpressionLength)
    (rightFits : right.length ≤ maxExpressionLength) (same : SameTokens left right) :
    ReadAlike left right (Field.parse left) (Field.parse right) ∧
      ReadAlike left right (Relation.parse left) (Relation.parse right) ∧
      Relation.isRelationText left = Relation.isRelationText right :=
  ⟨same.read leftFits rightFits .emptyField Field.ofLexemes,
    same.read leftFits rightFits .emptyRelation Relation.ofLexemes, same.isRelationText_eq⟩

def doubledEquals : Text := utf8 "int = = 1"

def doubledEqualsOnLines : Text := utf8 " int\n=\t=\r\n1"

theorem reads_alike_doubledEquals :
    SameTokens doubledEquals doubledEqualsOnLines ∧
      ReadAlike doubledEquals doubledEqualsOnLines (Field.parse doubledEquals)
        (Field.parse doubledEqualsOnLines) ∧
      ReadAlike doubledEquals doubledEqualsOnLines (Relation.parse doubledEquals)
        (Relation.parse doubledEqualsOnLines) ∧
      Relation.isRelationText doubledEquals = Relation.isRelationText doubledEqualsOnLines := by
  have same : SameTokens doubledEquals doubledEqualsOnLines :=
    sameTokens_iff.mpr (by decide +kernel)
  exact ⟨same, reads_alike_of_sameTokens (by decide) (by decide) same⟩

end EntitySchema
