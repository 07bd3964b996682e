import EntitySchema.Proofs.Field.Acceptance
import EntitySchema.Proofs.Field.WellFormed

/-!
Writing a field and reading it again. Every field that an expression can say comes back unchanged,
unless its text is longer than an expression may be.
-/

namespace EntitySchema

open Lexer Expression

namespace TypeExpr

theorem renderBefore_baseName (expr : TypeExpr) (tail : Text) :
    ∃ rest, expr.renderBefore tail = expr.baseName ++ rest := by
  cases expr with
  | primitive name => exact ⟨tail, by rw [renderBefore, baseName]⟩
  | parametric name => exact ⟨_, renderBefore_parametric name _ _ _ tail⟩
  | generic name arguments => exact ⟨_, renderBefore_generic name arguments tail⟩
  | named name => exact ⟨tail, by rw [renderBefore, baseName]⟩

end TypeExpr

namespace Field

def startsVisibly (text : Text) : Bool :=
  text.head?.any fun byte => decide (byte < 0x80) && !Text.isSpace (Rune.ofByte byte).char

theorem isBlank_of_startsVisibly {text : Text} (starts : startsVisibly text = true) (rest : Text) :
    Text.isBlank (text ++ rest) = false := by
  cases text with
  | nil => simp [startsVisibly] at starts
  | cons first text =>
      simp only [startsVisibly, List.head?_cons, Option.any_some, Bool.and_eq_true,
        decide_eq_true_eq, Bool.not_eq_true'] at starts
      exact Text.isBlank_of_ascii starts.1 starts.2 _

theorem WellFormed.not_blank {field : Field} (wellFormed : field.WellFormed) :
    field.render.isBlank = false := by
  cases wellFormed with
  | @relation relation wellFormed =>
      have arrows : ∀ arrow ∈ Operator.all, startsVisibly arrow = true := by decide
      rw [render]
      simp only [Relation.render, List.append_assoc]
      exact isBlank_of_startsVisibly (arrows _ wellFormed.operator) _
  | @typed expr modifier isArray default valid _ _ =>
      have names : ∀ base ∈ TypeName.builtIn, startsVisibly base = true := by decide
      rw [render_ofParts]
      obtain ⟨rest, shape⟩ := expr.renderBefore_baseName
        ((if isArray then utf8 "[]" else []) ++ (modifier ++ assignedText default))
      rw [shape]
      exact isBlank_of_startsVisibly (names _ valid.baseName_mem) rest

theorem WellFormed.parse_render {field : Field} (wellFormed : field.WellFormed)
    (short : field.render.length ≤ maxExpressionLength) : parse field.render = .ok field :=
  parse_eq_ok_iff.mpr ⟨wellFormed.not_blank, short, lexemesOf_tokenize _ ▸ wellFormed.written⟩

/--
Reading the text of a well-formed field gives the field back, and the only other outcome is that
the text is refused for its length.
-/
theorem parse_render_of_wellFormed {field : Field} (wellFormed : field.WellFormed) :
    parse field.render =
      if maxExpressionLength < field.render.length then .error { cause := .tooLong }
      else .ok field := by
  split
  next long => exact Expression.read_of_long wellFormed.not_blank long
  next short =>
    exact parse_eq_ok_iff.mpr ⟨wellFormed.not_blank, Nat.le_of_not_lt short, wellFormed.written⟩

def pricesField : Field :=
  ofParts (.generic (utf8 "map") [.primitive TypeName.string,
    .parametric TypeName.decimal (some 10) (some 2) none]) (utf8 "!") true
    (some (.string (utf8 "a\"b\\")))

theorem pricesField_wellFormed : pricesField.WellFormed :=
  .typed (.map (.primitive (by decide))
      (.scaled (by decide) (by decide) (by decide) (by decide)))
    (forall_mem_of_all (by decide))
    fun _ same => Option.some.inj same ▸ trivial

theorem parse_render_prices :
    pricesField.WellFormed ∧ parse pricesField.render = .ok pricesField :=
  ⟨pricesField_wellFormed,
    (parse_render_of_wellFormed pricesField_wellFormed).trans (if_neg (by decide))⟩

def paddedField (count : Nat) : Field :=
  ofParts (.primitive TypeName.string) [] false (some (.string (List.replicate count 0x61)))

theorem paddedField_wellFormed (count : Nat) : (paddedField count).WellFormed :=
  .typed (.primitive (by decide)) (by simp) fun _ same => Option.some.inj same ▸ trivial

theorem length_render_paddedField (count : Nat) : count < (paddedField count).render.length := by
  have quoted : (List.replicate count 0x61).flatMap DefaultValue.quoteByte =
      List.replicate count (0x61 : Byte) := by
    induction count with
    | zero => rfl
    | succ count ih =>
        rw [List.replicate_succ, List.flatMap_cons, ih]
        rfl
  rw [paddedField, render_ofParts]
  simp only [TypeExpr.renderBefore, assignedText, DefaultValue.render, DefaultValue.quoteString,
    quoted, List.length_append, List.length_cons, List.length_replicate]
  omega

def spacedField : Field :=
  { type := TypeName.relation,
    relation := some { operator := Operator.forward, target := utf8 " User" } }

theorem lexemes_spaced :
    lexemesOf (tokenize (utf8 " User")) = [IsName.lexeme (utf8 "User")] := by
  have isName : IsName (utf8 "User") := .of_isPlain (by decide)
  have read := isName.lexemes_append endsName_nil
  rw [List.append_nil, Text.runes_nil, lexemes_nil] at read
  rw [lexemesOf_tokenize, show utf8 " User" = 0x20 :: utf8 "User" from rfl,
    lexemes_of_blank_cons (by decide), read]

theorem parse_render_spaced :
    parse spacedField.render = .ok
      { type := TypeName.relation,
        relation := some { operator := Operator.forward, target := utf8 "User" } } := by
  have read : lexemesOf (tokenize spacedField.render) =
      [⟨.relationOp, Operator.forward⟩, IsName.lexeme (utf8 "User")] := by
    have shape : spacedField.render = Operator.forward ++ 0x20 :: utf8 " User" := by decide
    have spaced := lexemes_spaced
    rw [lexemesOf_tokenize] at spaced ⊢
    rw [shape, lexemes_arrow (by decide), lexemes_of_blank_cons (by decide), spaced]
  have visible : spacedField.render.isBlank = false :=
    Text.isBlank_of_ascii (by decide) (by decide) _
  refine parse_eq_ok_iff.mpr ⟨visible, by decide, ?_⟩
  rw [read]
  exact .relation (.mk rfl (IsName.isName_lexeme _) .none .none .none)

/-- A target with a blank and a default beyond the limit are written, but not read back. -/
theorem parse_render_not_identity :
    (∃ lexeme, lexemesOf (tokenize (utf8 " User")) = [lexeme] ∧ lexeme.isName = true) ∧
      parse spacedField.render ≠ .ok spacedField ∧
      (paddedField maxExpressionLength).WellFormed ∧
      parse (paddedField maxExpressionLength).render ≠ .ok (paddedField maxExpressionLength) := by
  refine ⟨⟨_, lexemes_spaced, IsName.isName_lexeme _⟩, ?_, paddedField_wellFormed _, ?_⟩
  · rw [parse_render_spaced]
    simp [spacedField, show utf8 "User" ≠ utf8 " User" by decide]
  · rw [parse, Expression.read_of_long (paddedField_wellFormed _).not_blank
      (length_render_paddedField _)]
    simp

end Field

theorem Relation.WellFormed.parse_render {relation : Relation} (wellFormed : relation.WellFormed)
    (short : relation.render.length ≤ maxExpressionLength) :
    parse relation.render = .ok relation :=
  parse_eq_ok_iff.mpr ⟨(Field.WellFormed.relation wellFormed).not_blank, short,
    lexemesOf_tokenize _ ▸ wellFormed.written⟩

end EntitySchema
