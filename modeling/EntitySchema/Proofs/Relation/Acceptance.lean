import EntitySchema.Proofs.Expression.Read
import EntitySchema.Proofs.Expression.Syntax
import EntitySchema.Proofs.Field.Grammar

/-!
Which expressions are relations. The parts behind the target are denoted exactly when they are
read, so a relation is accepted exactly when it is written as the language of relations says.
-/

namespace EntitySchema

open Expression Expression.Grammar Expression.Reading

theorem RelationDenotes.head {lexemes : List Lexeme} {relation : Relation}
    (denotes : RelationDenotes lexemes relation) : ∃ operator target rest,
      lexemes = operator :: target :: rest ∧ operator.kind = .relationOp ∧
        target.isName = true := by
  obtain ⟨operator, isName, _, _, _⟩ := denotes
  exact ⟨_, _, _, rfl, operator, isName⟩

namespace Relation

theorem inverseDenotes_iff {index : Nat} {used : List Lexeme} {inverse : Text} :
    InverseDenotes used inverse ↔ ∃ found, maybe inverseReading index used found ∧
      inverse = (found.map Lexeme.text).getD [] := by
  constructor
  · rintro (_ | ⟨dot, isName⟩)
    · exact ⟨none, rfl, rfl⟩
    · exact ⟨some _, ⟨(_, _), ⟨[_], [_], rfl, ⟨rfl, by simpa using dot⟩, rfl, isName⟩, rfl⟩, rfl⟩
  · rintro ⟨_ | name, read, rfl⟩
    · obtain rfl : used = [] := read
      exact .none
    · obtain ⟨_, ⟨_, _, rfl, ⟨rfl, dot⟩, rfl, isName⟩, rfl⟩ := read
      exact .some (by simpa using dot) isName

theorem arrayDenotes_iff {index : Nat} {used : List Lexeme} {isArray : Bool} :
    ArrayDenotes used isArray ↔ ∃ found, maybe arrayReading index used found ∧
      isArray = found.isSome := by
  constructor
  · rintro (_ | ⟨opens, closes⟩)
    · exact ⟨none, rfl, rfl⟩
    · exact ⟨some (), ⟨(_, _), ⟨[_], [_], rfl, ⟨rfl, by simpa using opens⟩, rfl,
        by simpa using closes⟩, rfl⟩, rfl⟩
  · rintro ⟨_ | array, read, rfl⟩
    · obtain rfl : used = [] := read
      exact .none
    · obtain ⟨_, ⟨_, _, rfl, ⟨rfl, opens⟩, rfl, closes⟩, _⟩ := read
      exact .some (by simpa using opens) (by simpa using closes)

theorem questionDenotes_iff {index : Nat} {used : List Lexeme} {isOptional : Bool} :
    QuestionDenotes used isOptional ↔ ∃ found, maybe questionReading index used found ∧
      isOptional = found.isSome := by
  constructor
  · rintro (_ | ⟨kind, text⟩)
    · exact ⟨none, rfl, rfl⟩
    · exact ⟨some _, ⟨rfl, by simp [kind, text]⟩, rfl⟩
  · rintro ⟨_ | mark, read, rfl⟩
    · obtain rfl : used = [] := read
      exact .none
    · obtain ⟨rfl, test⟩ := read
      simp only [Bool.and_eq_true, decide_eq_true_eq] at test
      exact .some test.1 test.2

theorem denotes_iff {lexemes : List Lexeme} {relation : Relation} :
    RelationDenotes lexemes relation ↔
      ∃ parsed, Grammar.relation.parseAll lexemes = .ok parsed ∧ relation = ofSyntax parsed := by
  simp only [relation_parseAll_iff]
  constructor
  · rintro ⟨operator, isName, inverse, array, question⟩
    obtain ⟨dotFound, dotRead, rfl⟩ := inverseDenotes_iff.mp inverse
    obtain ⟨arrayFound, arrayRead, rfl⟩ := arrayDenotes_iff.mp array
    obtain ⟨questionFound, questionRead, rfl⟩ := questionDenotes_iff.mp question
    refine ⟨_, ⟨(_, _, dotFound, arrayFound, questionFound), ⟨[_], _, rfl,
      ⟨rfl, by simpa using operator⟩, [_], _, rfl, ⟨rfl, isName⟩, _, _, List.append_assoc ..,
      dotRead, _, _, rfl, arrayRead, questionRead⟩, rfl⟩, rfl⟩
  · rintro ⟨parsed, ⟨⟨operator, target, dotFound, arrayFound, questionFound⟩, ⟨_, _, rfl,
      ⟨rfl, kind⟩, _, _, rfl, ⟨rfl, isName⟩, dotted, _, rfl, dotRead, brackets, marks, rfl,
      arrayRead, questionRead⟩, rfl⟩, rfl⟩
    have denotes := RelationDenotes.mk (by simpa using kind) isName
      (inverseDenotes_iff.mpr ⟨dotFound, dotRead, rfl⟩)
      (arrayDenotes_iff.mpr ⟨arrayFound, arrayRead, rfl⟩)
      (questionDenotes_iff.mpr ⟨questionFound, questionRead, rfl⟩)
    simpa [ofSyntax] using denotes

theorem ofLexemes_eq_ok_iff {lexemes : List Lexeme} {relation : Relation} :
    ofLexemes lexemes = .ok relation ↔ RelationDenotes lexemes relation := by
  constructor
  · intro accepted
    rw [denotes_iff]
    unfold ofLexemes at accepted
    split at accepted
    · simp at accepted
    · split at accepted
      · simp at accepted
      · split at accepted
        · simp at accepted
        · split at accepted
          · split at accepted
            next parsed found => exact ⟨parsed, found, (Except.ok.inj accepted).symm⟩
            next => simp at accepted
          · simp at accepted
  · intro denotes
    obtain ⟨operator, target, rest, rfl, kind, isName⟩ := denotes.head
    obtain ⟨parsed, found, rfl⟩ := denotes_iff.mp denotes
    simp [ofLexemes, kind, isName, found]

theorem parse_eq_ok_iff {text : Text} {relation : Relation} :
    parse text = .ok relation ↔ text.isBlank = false ∧
      text.length ≤ maxExpressionLength ∧
      RelationDenotes (lexemesOf (tokenize text)) relation := by
  rw [parse, Expression.read_eq_ok_iff, ofLexemes_eq_ok_iff]

end Relation

end EntitySchema
