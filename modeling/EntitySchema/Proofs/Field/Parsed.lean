import EntitySchema.Proofs.Field.Acceptance
import EntitySchema.Proofs.Field.WellFormed
import EntitySchema.Proofs.Relation.Dispatch

/-!
What is read can be written. A field or a relation that some text denotes is well formed, and what
it is written as denotes nothing else, so two of them that are written alike are equal.
-/

namespace EntitySchema

open Lexer Expression

theorem readInteger?_le {text : Text} {value : Int} (read : readInteger? text = some value) :
    value ≤ 2 ^ 63 - 1 := by
  have greatest : Int64.maxValue.toInt = 2 ^ 63 - 1 := by decide
  simp only [readInteger?, Option.ite_none_left_eq_some, Option.ite_none_right_eq_some,
    Option.some.injEq] at read
  obtain ⟨_, range, rfl⟩ := read
  exact greatest ▸ range.2

theorem mem_operators_of_lexeme {text : Text} {lexeme : Lexeme}
    (member : lexeme ∈ lexemes text.runes) (kind : lexeme.kind = .relationOp) :
    lexeme.text ∈ Operator.all := by
  obtain ⟨front, first, rest, whole, _, rfl⟩ := exists_measure_of_mem member
  obtain ⟨second, more, rfl, arrow⟩ := Relation.exists_arrow_of_relationOp kind
  have size : (measure first (second :: more)).2 = 1 := by
    obtain ⟨_, same⟩ | ⟨_, same⟩ | ⟨_, same⟩ | ⟨_, same⟩ | ⟨_, same⟩ | ⟨_, _, same⟩ :=
      measure_cases first (second :: more)
    · simp [same] at kind
    · simp [same] at kind
    · simp [same] at kind
    · rcases nameKind_cases (first :: (second :: more).takeWhile continuesName) with isName | isName
      · simp [same, isName] at kind
      · simp [same, isName] at kind
    · rw [same]
    · simp only [same] at kind
      exact absurd kind (Relation.charKind_ne_relationOp _)
  have inside : first ∈ text.runes ∧ second ∈ text.runes := by
    rw [whole]
    simp
  have spelled := Relation.mem_operators (Text.isRead_of_mem_runes inside.1)
    (Text.isRead_of_mem_runes inside.2) arrow
  simpa [size] using spelled

section Denoted

variable {text : Text} {used : List Lexeme}

theorem TypeDenotes.valid {expr : TypeExpr} (denotes : TypeDenotes used expr)
    (read : used ⊆ lexemes text.runes) : expr.Valid := by
  induction denotes with
  | primitive _ isPrimitive =>
      exact .primitive (by simpa [TypeName.isPrimitive] using isPrimitive)
  | decimal _ _ _ low high _ => exact .decimal low high
  | scaled _ _ _ low high _ _ above below _ => exact .scaled low high above below
  | sized _ member _ value low _ => exact .sized member low (readInteger?_le value)
  | map _ _ _ _ _ _ keyIh valueIh =>
      refine .map (keyIh fun lexeme member => ?_) (valueIh fun lexeme member => ?_)
      · exact read (by simp [member])
      · exact read (by simp [member])
  | list _ _ _ _ ih => exact .list (ih fun lexeme member => read (by simp [member]))
  | named _ member _ isName _ =>
      exact .named member (IsName.of_mem_lexemes (read (by simp)) isName)

theorem DefaultDenotes.wellFormed {value : DefaultValue} (denotes : DefaultDenotes used value)
    (read : used ⊆ lexemes text.runes) : value.WellFormed := by
  cases denotes with
  | function isName => exact IsName.of_mem_lexemes (read (by simp)) isName
  | number _ value => exact Binary.isDouble_of_readDouble? value
  | _ => trivial

theorem InverseDenotes.wellFormed {inverse : Text} (denotes : InverseDenotes used inverse)
    (read : used ⊆ lexemes text.runes) : inverse = [] ∨ IsName inverse := by
  cases denotes with
  | none => exact Or.inl rfl
  | some _ isName => exact Or.inr (IsName.of_mem_lexemes (read (by simp)) isName)

theorem RelationDenotes.wellFormed {relation : Relation} (denotes : RelationDenotes used relation)
    (read : used ⊆ lexemes text.runes) : relation.WellFormed := by
  cases denotes with
  | mk kind isName inverse _ _ =>
      refine ⟨mem_operators_of_lexeme (read (by simp)) kind, ?_, ?_⟩
      · exact IsName.of_mem_lexemes (read (by simp)) isName
      · exact inverse.wellFormed fun lexeme member => read (by simp [member])

theorem SuffixesDenote.modifiers_known {suffixes : List Suffix}
    (denote : SuffixesDenote used suffixes) (read : used ⊆ lexemes text.runes) :
    ∀ byte ∈ suffixes.flatMap Suffix.modifierText, byte ∈ Field.modifierBytes := by
  have known : ∀ sign ∈ [utf8 "!", utf8 "?", utf8 "#"],
      (sign.all fun byte => decide (byte ∈ Field.modifierBytes)) = true := by decide
  intro byte member
  obtain ⟨suffix, inside, spelled⟩ := List.mem_flatMap.mp member
  rcases denote.proper (fun lexeme found => proper_of_mem (read found)) suffix inside with
    rfl | rfl | rfl | rfl
  · simp [Suffix.modifierText] at spelled
  · exact forall_mem_of_all (known (utf8 "!") (by simp)) byte spelled
  · exact forall_mem_of_all (known (utf8 "?") (by simp)) byte spelled
  · exact forall_mem_of_all (known (utf8 "#") (by simp)) byte spelled

theorem FieldDenotes.wellFormed {field : Field} (denotes : FieldDenotes used field)
    (read : used ⊆ lexemes text.runes) : field.WellFormed := by
  cases denotes with
  | relation denotes => exact .relation (denotes.wellFormed read)
  | typed type suffixes _ assignment =>
      refine .typed (type.valid fun lexeme member => read (by simp [member]))
        (suffixes.modifiers_known fun lexeme member => read (by simp [member])) ?_
      rintro value given
      cases assignment with
      | none => simp at given
      | some _ denotes =>
          obtain rfl := Option.some.inj given
          exact denotes.wellFormed fun lexeme member => read (by simp [member])

end Denoted

namespace Relation

theorem wellFormed_of_parse {text : Text} {relation : Relation}
    (parsed : parse text = .ok relation) : relation.WellFormed := by
  obtain ⟨_, _, denotes⟩ := parse_eq_ok_iff.mp parsed
  rw [lexemesOf_tokenize] at denotes
  exact denotes.wellFormed (List.Subset.refl _)

theorem WellFormed.eq_of_render {left right : Relation} (leftFormed : left.WellFormed)
    (rightFormed : right.WellFormed) (same : left.render = right.render) : left = right := by
  have leftRead := ofLexemes_eq_ok_iff.mpr leftFormed.written
  have rightRead := ofLexemes_eq_ok_iff.mpr rightFormed.written
  rw [same, rightRead] at leftRead
  exact (Except.ok.inj leftRead).symm

end Relation

namespace Field

theorem wellFormed_of_parse {text : Text} {field : Field} (parsed : parse text = .ok field) :
    field.WellFormed := by
  obtain ⟨_, _, denotes⟩ := parse_eq_ok_iff.mp parsed
  rw [lexemesOf_tokenize] at denotes
  exact denotes.wellFormed (List.Subset.refl _)

/-- A field can be told from what it is written as, however long that is. -/
theorem WellFormed.eq_of_render {left right : Field} (leftFormed : left.WellFormed)
    (rightFormed : right.WellFormed) (same : left.render = right.render) : left = right := by
  have proper (text : Text) : ∀ lexeme ∈ lexemes text.runes, lexeme.Proper :=
    fun _ member => proper_of_mem member
  have leftRead := (ofLexemes_eq_ok_iff (proper _)).mpr leftFormed.written
  have rightRead := (ofLexemes_eq_ok_iff (proper _)).mpr rightFormed.written
  rw [same, rightRead] at leftRead
  exact (Except.ok.inj leftRead).symm

end Field

end EntitySchema
