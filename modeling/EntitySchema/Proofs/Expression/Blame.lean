import EntitySchema.Proofs.Expression.Fault

/-!
A refused expression is never blamed with an error of the kind that is kept for records.
-/

namespace EntitySchema

open Expression

/-- If the reading fails, the fault lies in an expression and not in a record. -/
def BlamesExpression {α : Type} (result : Except Fault α) : Prop :=
  ∀ fault, result = .error fault → fault.cause.kind ≠ .invalidRecord

theorem FaultsIn.blamesExpression {α : Type} {kinds : List ErrorKind} {bound : Nat}
    {result : Except Fault α} (faults : FaultsIn kinds bound result)
    (other : .invalidRecord ∉ kinds) : BlamesExpression result := by
  intro fault failed same
  exact other (same ▸ (faults fault failed).1)

theorem Relation.ofLexemes_blames (lexemes : List Lexeme) :
    BlamesExpression (ofLexemes lexemes) :=
  (ofLexemes_faults lexemes).blamesExpression (by decide)

theorem Field.ofLexemes_blames (lexemes : List Lexeme) : BlamesExpression (ofLexemes lexemes) :=
  (ofLexemes_faults lexemes).blamesExpression (by decide)

theorem Expression.read_error_kind {α : Type} {blank : Cause}
    {readLexemes : List Lexeme → Except Fault α} {text : Text} {error : ParseError}
    (blankKind : blank.kind ≠ .invalidRecord)
    (blames : ∀ lexemes, BlamesExpression (readLexemes lexemes))
    (failed : Expression.read blank readLexemes text = .error error) :
    error.kind ≠ .invalidRecord := by
  unfold Expression.read at failed
  split_ifs at failed
  · cases failed
    exact blankKind
  · cases failed
    exact nofun
  · dsimp only at failed
    split at failed
    · simp at failed
    next fault found =>
      cases failed
      exact blames _ fault found

theorem Field.parse_error_kind {text : Text} {error : ParseError}
    (failed : Field.parse text = .error error) : error.kind ≠ .invalidRecord :=
  Expression.read_error_kind (by decide) Field.ofLexemes_blames failed

theorem Relation.parse_error_kind {text : Text} {error : ParseError}
    (failed : Relation.parse text = .error error) : error.kind ≠ .invalidRecord :=
  Expression.read_error_kind (by decide) Relation.ofLexemes_blames failed

end EntitySchema
