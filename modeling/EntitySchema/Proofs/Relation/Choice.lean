import EntitySchema.Proofs.Expression.Layout
import EntitySchema.Proofs.Schema.Partition

/-!
One answer to the question whether an expression is a relation. The arrow that its bytes start
with is the text of its first token, so a record entry is declared as a relation exactly when the
expression is read as one.
-/

namespace EntitySchema

open Lexer Expression

namespace Relation

def arrowOf? (text : Text) : Option Text :=
  Operator.all.find? fun operator => Text.startsWith (text.dropWhile fun byte =>
    byte = 0x20 || byte = 0x09 || byte = 0x0D || byte = 0x0A) operator

theorem isSome_arrowOf? (text : Text) : (arrowOf? text).isSome = isRelationText text := by
  rw [arrowOf?, List.isSome_find?]
  rfl

theorem lexemes_of_arrowOf? {text arrow : Text} (found : arrowOf? text = some arrow) :
    ∃ others, lexemes text.runes = ⟨.relationOp, arrow⟩ :: others := by
  have member : arrow ∈ Operator.all := List.mem_of_find?_eq_some found
  obtain ⟨blanks, rest, rfl, blanksOnly⟩ :=
    (startsWith_dropWhile_iff text member).mp (List.find?_some found)
  exact ⟨lexemes rest.runes, by rw [lexemes_of_blanks_append blanksOnly, lexemes_arrow member]⟩

theorem exists_first_token (text : Text) : ∃ first others, tokenize text = first :: others ∧
    (isRelationText text = true ↔ first.kind = .relationOp) ∧
    (first.kind = .relationOp → arrowOf? text = some first.text) := by
  obtain ⟨first, others, shape⟩ :=
    List.exists_cons_of_ne_nil (tokensFrom_ne_nil Position.start text.runes)
  have same := map_toLexeme_tokensFrom Position.start text.runes
  rw [shape, List.map_cons] at same
  refine ⟨first, others, shape, ?_⟩
  cases found : arrowOf? text with
  | none =>
      have noArrow : isRelationText text = false := by rw [← isSome_arrowOf?, found]; rfl
      have other : first.kind ≠ .relationOp := by
        intro kind
        cases read : lexemes text.runes with
        | nil =>
            rw [read, List.nil_append, List.cons.injEq] at same
            rw [same.1] at kind
            contradiction
        | cons head rest =>
            rw [read, List.cons_append, List.cons.injEq] at same
            have arrow := (isRelationText_iff_lexemes text).mpr ⟨head, rest, read, same.1 ▸ kind⟩
            simp [noArrow] at arrow
      simp [noArrow, other]
  | some arrow =>
      obtain ⟨rest, read⟩ := lexemes_of_arrowOf? found
      have isArrow : isRelationText text = true := by rw [← isSome_arrowOf?, found]; rfl
      rw [read, List.cons_append, List.cons.injEq] at same
      have kind : first.kind = .relationOp := congrArg Lexeme.kind same.1
      have spelled : first.text = arrow := congrArg Lexeme.text same.1
      simp [isArrow, kind, spelled]

end Relation

namespace Declaration

theorem Declares.mem {entries : List (Text × Value)} {declarations : List Declaration}
    (declares : Declares entries declarations) {key text : Text}
    (member : (key, .string text) ∈ entries) (noDirective : Key.isDirective key = false) :
    ofExpression key text ∈ declarations := by
  induction declares with
  | nil => simp at member
  | name _ ih =>
      rcases List.mem_cons.mp member with same | later
      · obtain ⟨rfl, _⟩ := Prod.mk.inj same
        exact absurd noDirective (by decide)
      · exact ih later
  | directive _ isDirective _ ih =>
      rcases List.mem_cons.mp member with same | later
      · obtain ⟨rfl, _⟩ := Prod.mk.inj same
        simp [noDirective] at isDirective
      · exact List.mem_cons_of_mem _ (ih later)
  | expression _ _ ih =>
      rcases List.mem_cons.mp member with same | later
      · cases same
        exact List.mem_cons_self
      · exact List.mem_cons_of_mem _ (ih later)

theorem Declares.arrow {entries : List (Text × Value)} {declarations : List Declaration}
    (declares : Declares entries declarations) (key text : Text) :
    (.relation key text ∈ declarations → Relation.isRelationText text = true) ∧
      (.field key text ∈ declarations → Relation.isRelationText text = false) := by
  induction declares with
  | nil => simp
  | name _ ih => exact ih
  | directive _ _ _ ih => simpa using ih
  | @expression otherKey otherText entries declarations _ _ ih =>
      simp only [List.mem_cons, ofExpression]
      split_ifs with arrow
      · simp only [relation.injEq, false_or]
        refine ⟨?_, ih.2⟩
        rintro (⟨rfl, rfl⟩ | later)
        · exact arrow
        · exact ih.1 later
      · simp only [field.injEq, false_or]
        refine ⟨ih.1, ?_⟩
        rintro (⟨rfl, rfl⟩ | later)
        · simpa using arrow
        · exact ih.2 later

theorem declared_iff {record : Record} {name key text : Text} {declarations : List Declaration}
    (classified : classify record = .ok (name, declarations))
    (member : (key, .string text) ∈ record.toList) (noDirective : Key.isDirective key = false) :
    (.relation key text ∈ declarations ↔ Relation.isRelationText text = true) ∧
      (.field key text ∈ declarations ↔ Relation.isRelationText text = false) := by
  obtain ⟨added, rfl, declares⟩ := classifyFrom_eq_ok classified
  have inside := declares.mem member noDirective
  obtain ⟨relations, fields⟩ := declares.arrow key text
  refine ⟨⟨relations, fun arrow => ?_⟩, ⟨fields, fun noArrow => ?_⟩⟩
  · rwa [ofExpression, if_pos arrow] at inside
  · rwa [ofExpression, if_neg (by simp [noArrow])] at inside

end Declaration

theorem not_blank_of_arrow {text : Text} (arrow : Relation.isRelationText text = true) :
    text.isBlank = false := by
  obtain ⟨first, others, shape, isArrow, spelled⟩ := Relation.exists_first_token text
  have member : first.text ∈ Operator.all :=
    List.mem_of_find?_eq_some (spelled (isArrow.mp arrow))
  have visible : ∀ operator ∈ Operator.all, operator.isBlank = false := by decide
  by_contra blank
  have spaces := (Text.isBlank_iff_tokens text).mp (Bool.not_eq_false _ ▸ blank) first
    (by rw [shape]; exact List.mem_cons_self)
  rw [visible _ member] at spaces
  contradiction

theorem Field.parse_of_arrow {text : Text} (arrow : Relation.isRelationText text = true) :
    Field.parse text = (Relation.parse text).map Field.ofRelation := by
  obtain ⟨first, others, read, kind⟩ := (Relation.isRelationText_iff_lexemes text).mp arrow
  have branch : Field.ofLexemes (lexemesOf (tokenize text)) =
      (Relation.ofLexemes (lexemesOf (tokenize text))).map Field.ofRelation := by
    rw [lexemesOf_tokenize, read, Field.ofLexemes, if_neg (by simp [kind]), if_pos kind]
  rw [Field.parse, Relation.parse, Expression.read, Expression.read, not_blank_of_arrow arrow]
  simp only [Bool.false_eq_true, if_false, branch]
  split
  · rfl
  · cases Relation.ofLexemes (lexemesOf (tokenize text)) <;> rfl

theorem Relation.isRelationText_of_parse {text : Text} {relation : Relation}
    (parsed : Relation.parse text = .ok relation) : Relation.isRelationText text = true := by
  obtain ⟨_, _, denotes⟩ := Relation.parse_eq_ok_iff.mp parsed
  obtain ⟨operator, target, rest, shape, kind, _⟩ := denotes.head
  exact (Relation.isRelationText_iff_lexemes text).mpr ⟨operator, target :: rest, shape, kind⟩

/--
Fields and relations are told apart alike everywhere. The bytes of an expression start with an
arrow exactly when its first token is one, and the arrow is that token; a record entry is then
declared as a relation, and the expression is read as one, and else neither of the two happens.
-/
theorem relation_dispatch (text : Text) : ∃ first others, tokenize text = first :: others ∧
    (Relation.isRelationText text = true ↔ first.kind = .relationOp) ∧
    (first.kind = .relationOp → Relation.arrowOf? text = some first.text) ∧
    (∀ record name declarations key,
      Declaration.classify record = .ok (name, declarations) →
        (key, .string text) ∈ record.toList → Key.isDirective key = false →
          (.relation key text ∈ declarations ↔ first.kind = .relationOp) ∧
            (.field key text ∈ declarations ↔ first.kind ≠ .relationOp)) ∧
    (first.kind = .relationOp → Field.parse text = (Relation.parse text).map Field.ofRelation) ∧
    (first.kind ≠ .relationOp → (∀ field, Field.parse text = .ok field → field.relation = none) ∧
      ∀ relation, Relation.parse text ≠ .ok relation) := by
  obtain ⟨first, others, shape, isArrow, spelled⟩ := Relation.exists_first_token text
  have noArrow : Relation.isRelationText text = false ↔ first.kind ≠ .relationOp := by
    rw [← Bool.not_eq_true, isArrow]
  refine ⟨first, others, shape, isArrow, spelled, ?_, ?_, ?_⟩
  · intro record name declarations key classified member noDirective
    rw [← isArrow, ← noArrow]
    exact Declaration.declared_iff classified member noDirective
  · intro kind
    exact Field.parse_of_arrow (isArrow.mpr kind)
  · intro other
    refine ⟨fun field parsed => (Field.parse_of_no_arrow (noArrow.mpr other) parsed).1, ?_⟩
    intro relation parsed
    exact other (isArrow.mp (Relation.isRelationText_of_parse parsed))

def taggedRecord : Record := OrderedMap.ofList
  [(utf8 "tags", .string (utf8 "\t<~Tag.of[]")), (utf8 "size", .string (utf8 "< ~Tag"))]

theorem relation_dispatch_tagged : ∃ declarations,
    Declaration.classify taggedRecord = .ok ([], declarations) ∧
      .relation (utf8 "tags") (utf8 "\t<~Tag.of[]") ∈ declarations ∧
      Field.parse (utf8 "\t<~Tag.of[]") =
        (Relation.parse (utf8 "\t<~Tag.of[]")).map Field.ofRelation ∧
      .field (utf8 "size") (utf8 "< ~Tag") ∈ declarations ∧
      ∀ relation, Relation.parse (utf8 "< ~Tag") ≠ .ok relation := by
  obtain ⟨first, _, _, isArrow, _, declared, asRelation, _⟩ :=
    relation_dispatch (utf8 "\t<~Tag.of[]")
  obtain ⟨other, _, _, otherArrow, _, otherDeclared, _, asField⟩ :=
    relation_dispatch (utf8 "< ~Tag")
  have kind : first.kind = .relationOp := isArrow.mp (by decide)
  have otherKind : other.kind ≠ .relationOp := fun same => absurd (otherArrow.mpr same) (by decide)
  have classified : Declaration.classify taggedRecord = .ok ([],
      [.relation (utf8 "tags") (utf8 "\t<~Tag.of[]"), .field (utf8 "size") (utf8 "< ~Tag")]) := rfl
  refine ⟨_, classified, ?_, asRelation kind, ?_, (asField otherKind).2⟩
  · exact (declared _ _ _ _ classified List.mem_cons_self rfl).1.mpr kind
  · exact (otherDeclared _ _ _ _ classified (.tail _ List.mem_cons_self) rfl).2.mpr otherKind

end EntitySchema
