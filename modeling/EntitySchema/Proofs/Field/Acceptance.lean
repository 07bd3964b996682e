import EntitySchema.Proofs.Field.TypeMeaning
import EntitySchema.Proofs.Relation.Acceptance

/-!
Which expressions are fields. An expression is accepted exactly when it is not blank, not too long
and written as the language of fields says, and the field that is found is the one it denotes.
-/

namespace EntitySchema

open Expression Expression.Grammar Expression.Reading

namespace Expression.Grammar

theorem suffixReading_iff {index : Nat} {used : List Lexeme} {found : Nat × Suffix} :
    suffixReading index used found ↔ found.1 = index ∧
      ((∃ opening closing, used = [opening, closing] ∧ opening.kind = .lBracket ∧
        closing.kind = .rBracket ∧ found.2 = .array) ∨
      ∃ modifier, used = [modifier] ∧ modifier.kind = .modifier ∧
        found.2 = .modifier modifier.text) := by
  constructor
  · rintro ⟨place, ⟨_, ⟨_, ⟨_, _, rfl, ⟨rfl, opens⟩, rfl, closes⟩, _⟩, same⟩ |
      ⟨modifier, ⟨rfl, kind⟩, same⟩⟩
    · exact ⟨place, Or.inl ⟨_, _, rfl, by simpa using opens, by simpa using closes, same.symm⟩⟩
    · exact ⟨place, Or.inr ⟨modifier, rfl, by simpa using kind, same.symm⟩⟩
  · rintro ⟨place, ⟨opening, closing, rfl, opens, closes, same⟩ | ⟨modifier, rfl, kind, same⟩⟩
    · exact ⟨place, Or.inl ⟨(), ⟨(opening, closing), ⟨[opening], [closing], rfl,
        ⟨rfl, by simpa using opens⟩, rfl, by simpa using closes⟩, rfl⟩, same.symm⟩⟩
    · exact ⟨place, Or.inr ⟨modifier, ⟨rfl, by simpa using kind⟩, same.symm⟩⟩

theorem suffixesDenote_of_repeated {index : Nat} {used : List Lexeme}
    {suffixes : List (Nat × Suffix)} (read : repeated suffixReading index used suffixes) :
    SuffixesDenote used (suffixes.map Prod.snd) := by
  induction read with
  | nil => exact .nil
  | @cons index left right found others first _ ih =>
      rw [List.map_cons]
      obtain ⟨_, ⟨opening, closing, rfl, opens, closes, same⟩ | ⟨modifier, rfl, kind, same⟩⟩ :=
        suffixReading_iff.mp first
      · rw [same]
        exact .array opens closes ih
      · rw [same]
        exact .modifier kind ih

theorem exists_repeated_suffixReading {used : List Lexeme} {suffixes : List Suffix}
    (denote : SuffixesDenote used suffixes) (index : Nat) :
    ∃ found, repeated suffixReading index used found ∧ found.map Prod.snd = suffixes := by
  induction denote generalizing index with
  | nil => exact ⟨[], .nil, rfl⟩
  | @array opening closing rest suffixes opens closes _ ih =>
      obtain ⟨found, read, rfl⟩ := ih (index + 2)
      have first : suffixReading index [opening, closing] (index, .array) :=
        suffixReading_iff.mpr ⟨rfl, Or.inl ⟨opening, closing, rfl, opens, closes, rfl⟩⟩
      exact ⟨(index, .array) :: found, repeated.cons first read, rfl⟩
  | @modifier modifier rest suffixes kind _ ih =>
      obtain ⟨found, read, rfl⟩ := ih (index + 1)
      have first : suffixReading index [modifier] (index, .modifier modifier.text) :=
        suffixReading_iff.mpr ⟨rfl, Or.inr ⟨modifier, rfl, kind, rfl⟩⟩
      exact ⟨(index, .modifier modifier.text) :: found, repeated.cons first read, rfl⟩

end Expression.Grammar

namespace DefaultValue

theorem ofWord?_eq_some {word : Text} {value : DefaultValue} :
    ofWord? word = some value ↔ word.lower = utf8 "null" ∧ value = .null ∨
      word.lower = utf8 "true" ∧ value = .boolean true ∨
      word.lower = utf8 "false" ∧ value = .boolean false := by
  have nullTrue : utf8 "null" ≠ utf8 "true" := by decide
  have nullFalse : utf8 "null" ≠ utf8 "false" := by decide
  have trueFalse : utf8 "true" ≠ utf8 "false" := by decide
  unfold ofWord?
  dsimp only
  split_ifs with isNull isTrue isFalse
  · simp [isNull, nullTrue, nullFalse, eq_comm]
  · simp [isTrue, nullTrue.symm, trueFalse, eq_comm]
  · simp [isFalse, nullFalse.symm, trueFalse.symm, eq_comm]
  · simp [isNull, isTrue, isFalse]

theorem denotes_iff {used : List Lexeme} {value : DefaultValue} (index : Nat) :
    DefaultDenotes used value ↔
      ∃ written, DefaultWritten used written ∧ ofSyntax index written = .ok value := by
  constructor
  · rintro (⟨isName, opens, closes⟩ | ⟨kind, word⟩ | ⟨kind, word⟩ | ⟨kind, word⟩ | ⟨kind, read⟩ |
      ⟨kind, read⟩ | ⟨opens, closes⟩ | ⟨opens, closes⟩)
    · exact ⟨_, .call isName opens closes, rfl⟩
    · exact ⟨_, .word kind, by simp [ofSyntax, ofWord?_eq_some.mpr (Or.inl ⟨word, rfl⟩)]⟩
    · exact ⟨_, .word kind,
        by simp [ofSyntax, ofWord?_eq_some.mpr (Or.inr (Or.inl ⟨word, rfl⟩))]⟩
    · exact ⟨_, .word kind,
        by simp [ofSyntax, ofWord?_eq_some.mpr (Or.inr (Or.inr ⟨word, rfl⟩))]⟩
    · exact ⟨_, .number kind, by simp [ofSyntax, read]⟩
    · exact ⟨_, .string kind, by simp [ofSyntax, read]⟩
    · exact ⟨_, .object opens closes, rfl⟩
    · exact ⟨_, .array opens closes, rfl⟩
  · rintro ⟨_, ⟨isName, opens, closes⟩ | kind | kind | kind | ⟨opens, closes⟩ | ⟨opens, closes⟩,
      meaning⟩
    · obtain rfl := Except.ok.inj meaning
      exact .function isName opens closes
    · simp only [ofSyntax] at meaning
      split at meaning
      next found =>
        obtain rfl := Except.ok.inj meaning
        obtain ⟨word, rfl⟩ | ⟨word, rfl⟩ | ⟨word, rfl⟩ := ofWord?_eq_some.mp found
        · exact .null kind word
        · exact .true kind word
        · exact .false kind word
      next => simp at meaning
    · simp only [ofSyntax] at meaning
      split at meaning
      next read =>
        obtain rfl := Except.ok.inj meaning
        exact .number kind read
      next => simp at meaning
    · simp only [ofSyntax] at meaning
      split at meaning
      next read =>
        obtain rfl := Except.ok.inj meaning
        exact .string kind read
      next => simp at meaning
    · obtain rfl := Except.ok.inj meaning
      exact .object opens closes
    · obtain rfl := Except.ok.inj meaning
      exact .array opens closes

end DefaultValue

def Expression.Suffix.Proper (suffix : Suffix) : Prop :=
  suffix = .array ∨ suffix = .modifier (utf8 "!") ∨ suffix = .modifier (utf8 "?") ∨
    suffix = .modifier (utf8 "#")

theorem SuffixesDenote.proper {used : List Lexeme} {suffixes : List Suffix}
    (denote : SuffixesDenote used suffixes) (proper : ∀ lexeme ∈ used, lexeme.Proper) :
    ∀ suffix ∈ suffixes, suffix.Proper := by
  induction denote with
  | nil => simp
  | array _ _ _ ih =>
      rw [List.forall_mem_cons]
      exact ⟨Or.inl rfl, ih fun lexeme member => proper lexeme (by simp [member])⟩
  | @modifier modifier _ _ kind _ ih =>
      rw [List.forall_mem_cons]
      refine ⟨?_, ih fun lexeme member => proper lexeme (by simp [member])⟩
      rcases (proper modifier (by simp)).modifier kind with text | text | text
      · exact Or.inr (Or.inl (congrArg Suffix.modifier text))
      · exact Or.inr (Or.inr (Or.inl (congrArg Suffix.modifier text)))
      · exact Or.inr (Or.inr (Or.inr (congrArg Suffix.modifier text)))

theorem TypeDenotes.head {lexemes : List Lexeme} {expr : TypeExpr}
    (denotes : TypeDenotes lexemes expr) :
    ∃ name rest base, lexemes = name :: rest ∧ name.Names base := by
  cases denotes <;> exact ⟨_, _, _, rfl, by assumption⟩

theorem FieldDenotes.head {lexemes : List Lexeme} {field : Field}
    (denotes : FieldDenotes lexemes field) :
    (∃ operator rest relation, lexemes = operator :: rest ∧ operator.kind = .relationOp ∧
      RelationDenotes lexemes relation ∧ field = Field.ofRelation relation) ∨
    ∃ name rest base, lexemes = name :: rest ∧ name.Names base ∧ field.relation = none := by
  cases denotes with
  | @relation _ relation denotes =>
      obtain ⟨operator, target, rest, rfl, kind, _⟩ := denotes.head
      exact Or.inl ⟨operator, _, relation, rfl, kind, denotes, rfl⟩
  | typed denotes =>
      obtain ⟨name, rest, base, rfl, names⟩ := denotes.head
      exact Or.inr ⟨name, _, base, rfl, names, rfl⟩

namespace Field

def mark (field : Field) (modifier : Text) (isArray : Bool) : Field :=
  { field with
    isArray := field.isArray || isArray
    isOptional := field.isOptional || modifier.contains 0x3F
    isRequired := field.isRequired || modifier.contains 0x21
    isUnique := field.isUnique || (modifier.contains 0x21 || modifier.contains 0x23)
    isIndexed := field.isIndexed || modifier.contains 0x23 }

theorem mark_nil (field : Field) : field.mark [] false = field := by
  simp [mark]

theorem mark_mark (field : Field) (first second : Text) (left right : Bool) :
    (field.mark first left).mark second right = field.mark (first ++ second) (left || right) := by
  simp only [mark, Field.mk.injEq, List.contains_append, true_and, and_true]
  refine ⟨?_, ?_, ?_, ?_, ?_⟩ <;> grind

theorem addModifier_eq_mark (field : Field) {text : Text}
    (proper : text = utf8 "!" ∨ text = utf8 "?" ∨ text = utf8 "#") :
    field.addModifier text = field.mark text false := by
  rcases proper with rfl | rfl | rfl
  · simp [addModifier, mark, show utf8 "!" = [0x21] from rfl]
  · simp [addModifier, mark, show utf8 "?" = [0x3F] from rfl]
  · simp [addModifier, mark, show utf8 "#" = [0x23] from rfl]

theorem addSuffixes_eq_ok_iff {field result : Field} {suffixes : List (Nat × Suffix)}
    (proper : ∀ suffix ∈ suffixes.map Prod.snd, suffix.Proper) :
    field.addSuffixes suffixes = .ok result ↔
      (suffixes.map Prod.snd).count .array + field.isArray.toNat ≤ 1 ∧
      result = field.mark ((suffixes.map Prod.snd).flatMap Suffix.modifierText)
        ((suffixes.map Prod.snd).contains .array) := by
  induction suffixes generalizing field with
  | nil =>
      have bound := Bool.toNat_le field.isArray
      simp [addSuffixes, mark_nil, eq_comm, bound]
  | cons suffix suffixes ih =>
      obtain ⟨index, suffix⟩ := suffix
      rw [List.map_cons, List.forall_mem_cons] at proper
      cases suffix with
      | array =>
          cases marked : field.isArray with
          | true => simp [addSuffixes, marked]
          | false =>
              have step : { field with isArray := true } = field.mark [] true := by
                simp [mark]
              simp only [addSuffixes, marked, Bool.false_eq_true, if_false, List.map_cons]
              rw [ih proper.2, step, mark_mark]
              simp [Suffix.modifierText, mark]
      | modifier text =>
          have spelled : text = utf8 "!" ∨ text = utf8 "?" ∨ text = utf8 "#" := by
            simpa [Suffix.Proper] using proper.1
          have same : (field.mark text false).isArray = field.isArray := by simp [mark]
          have different : (Suffix.array == Suffix.modifier text) = false :=
            beq_eq_false_iff_ne.mpr nofun
          rw [addSuffixes, addModifier_eq_mark field spelled, ih proper.2, mark_mark, same]
          simp [Suffix.modifierText, different]

theorem ofType_eq (expr : TypeExpr) (modifier : Text) :
    { ofType expr with modifier := modifier } =
      { type := expr.baseName, expr := some expr, modifier := modifier,
        precision := expr.precision?, scale := expr.scale?, length := expr.length? } := by
  cases expr <;> rfl

theorem ofParts_eq_mark (expr : TypeExpr) (modifier : Text) (isArray : Bool) :
    ofParts expr modifier isArray none =
      { ofType expr with modifier := modifier }.mark modifier isArray := by
  rw [ofType_eq]
  simp [ofParts, mark]

def AssignedMeans : Option (Nat × DefaultSyntax) → Option DefaultValue → Prop
  | none, value => value = none
  | some (index, written), value =>
    ∃ found, DefaultValue.ofSyntax index written = .ok found ∧ value = some found

theorem ofSyntax_eq_ok_iff {parsed : FieldSyntax} {field : Field}
    (proper : ∀ suffix ∈ parsed.suffixes.map Prod.snd, suffix.Proper) :
    ofSyntax parsed = .ok field ↔ ∃ expr default, TypeExpr.ofSyntax parsed.base = .ok expr ∧
      (parsed.suffixes.map Prod.snd).count .array ≤ 1 ∧ AssignedMeans parsed.default default ∧
      field = ofParts expr ((parsed.suffixes.map Prod.snd).flatMap Suffix.modifierText)
        ((parsed.suffixes.map Prod.snd).contains .array) default := by
  obtain ⟨base, suffixes, written⟩ := parsed
  cases typeMeaning : TypeExpr.ofSyntax base with
  | error fault => simp [ofSyntax, typeMeaning, bind, Except.bind]
  | ok expr =>
      have modifiers : modifiersOf suffixes =
          (suffixes.map Prod.snd).flatMap Suffix.modifierText := by
        simp [modifiersOf, List.flatMap_map]
      have unmarked : { ofType expr with modifier := modifiersOf suffixes }.isArray = false := by
        rw [ofType_eq]
      have marks (result : Field) :
          { ofType expr with modifier := modifiersOf suffixes }.addSuffixes suffixes = .ok result ↔
            (suffixes.map Prod.snd).count .array ≤ 1 ∧
            result = ofParts expr ((suffixes.map Prod.snd).flatMap Suffix.modifierText)
              ((suffixes.map Prod.snd).contains .array) none := by
        rw [addSuffixes_eq_ok_iff proper, unmarked, ofParts_eq_mark, modifiers]
        simp
      cases marked :
          { ofType expr with modifier := modifiersOf suffixes }.addSuffixes suffixes with
      | error fault =>
          have repeated : ¬(suffixes.map Prod.snd).count .array ≤ 1 := by
            intro few
            have found := (marks _).mpr ⟨few, rfl⟩
            simp [marked] at found
          simp [ofSyntax, typeMeaning, marked, repeated, bind, Except.bind]
      | ok result =>
          obtain ⟨few, rfl⟩ := (marks result).mp marked
          cases written with
          | none =>
              simp [ofSyntax, typeMeaning, marked, few, bind, Except.bind, pure, Except.pure,
                AssignedMeans, eq_comm]
          | some found =>
              obtain ⟨index, written⟩ := found
              cases meaning : DefaultValue.ofSyntax index written with
              | error fault =>
                  simp [ofSyntax, typeMeaning, marked, meaning, bind, Except.bind, AssignedMeans]
              | ok value =>
                  simp [ofSyntax, typeMeaning, marked, few, meaning, bind, Except.bind, pure,
                    Except.pure, AssignedMeans, ofParts, eq_comm]

theorem assignmentDenotes_of_maybe {index : Nat} {used : List Lexeme}
    {written : Option (Nat × DefaultSyntax)} {value : Option DefaultValue}
    (read : maybe assignedReading index used written) (means : AssignedMeans written value) :
    AssignmentDenotes used value := by
  cases written with
  | none =>
      obtain rfl : used = [] := read
      obtain rfl : value = none := means
      exact .none
  | some written =>
      obtain ⟨found, meaning, rfl⟩ := means
      obtain ⟨_, ⟨_, rest, rfl, ⟨rfl, equals⟩, _, inside⟩, rfl⟩ := read
      exact .some (by simpa using equals) ((DefaultValue.denotes_iff _).mpr ⟨_, inside, meaning⟩)

theorem exists_maybe_assignedReading {used : List Lexeme} {value : Option DefaultValue}
    (denotes : AssignmentDenotes used value) (index : Nat) :
    ∃ written, maybe assignedReading index used written ∧ AssignedMeans written value := by
  cases denotes with
  | none => exact ⟨none, rfl, rfl⟩
  | @some equals rest value kind denotes =>
      obtain ⟨written, inside, meaning⟩ := (DefaultValue.denotes_iff (index + 1)).mp denotes
      refine ⟨some (index + 1, written), ?_, value, meaning, rfl⟩
      exact ⟨(equals, index + 1, written), ⟨[equals], rest, rfl, ⟨rfl, by simpa using kind⟩, rfl,
        inside⟩, rfl⟩

theorem typed_iff {lexemes : List Lexeme} (proper : ∀ lexeme ∈ lexemes, lexeme.Proper)
    {field : Field} :
    (∃ parsed, Grammar.field.parseAll lexemes = .ok parsed ∧ ofSyntax parsed = .ok field) ↔
      FieldDenotes lexemes field ∧ field.relation = none := by
  constructor
  · rintro ⟨parsed, accepted, meaning⟩
    obtain ⟨found, ⟨base, _, rfl, typeRead, marks, assigned, rfl, suffixRead, assignedRead⟩, rfl⟩ :=
      (field_parseAll_iff _ _).mp accepted
    have suffixes := suffixesDenote_of_repeated suffixRead
    have properSuffixes := suffixes.proper fun lexeme member => proper lexeme (by simp [member])
    obtain ⟨expr, default, typeMeaning, few, means, rfl⟩ :=
      (ofSyntax_eq_ok_iff properSuffixes).mp meaning
    refine ⟨?_, rfl⟩
    rw [← List.append_assoc]
    exact .typed (denotes_of_typeReading typeRead typeMeaning) suffixes few
      (assignmentDenotes_of_maybe assignedRead means)
  · rintro ⟨denotes, noRelation⟩
    cases denotes with
    | relation => simp at noRelation
    | @typed base marks assigned expr suffixes default type suffixes few assignment =>
        have deep : base.length ≤ (base ++ marks ++ assigned).length + 1 := by
          simp only [List.length_append]
          omega
        obtain ⟨typeParsed, typeRead, typeMeaning⟩ := exists_typeReading type
          (fun lexeme member => proper lexeme (by simp [member])) deep 0
        obtain ⟨found, suffixRead, rfl⟩ :=
          exists_repeated_suffixReading suffixes (0 + base.length)
        obtain ⟨written, assignedRead, means⟩ :=
          exists_maybe_assignedReading assignment (0 + base.length + marks.length)
        have properSuffixes := suffixes.proper fun lexeme member =>
          proper lexeme (by simp [member])
        refine ⟨⟨typeParsed, found, written⟩, (field_parseAll_iff _ _).mpr ?_, ?_⟩
        · exact ⟨(typeParsed, found, written), ⟨base, marks ++ assigned, by simp, typeRead, marks,
            assigned, rfl, suffixRead, assignedRead⟩, rfl⟩
        · exact (ofSyntax_eq_ok_iff properSuffixes).mpr
            ⟨expr, default, typeMeaning, few, means, rfl⟩

theorem ofLexemes_eq_ok_iff {lexemes : List Lexeme} {field : Field}
    (proper : ∀ lexeme ∈ lexemes, lexeme.Proper) :
    ofLexemes lexemes = .ok field ↔ FieldDenotes lexemes field := by
  constructor
  · intro accepted
    unfold ofLexemes at accepted
    split at accepted
    · simp at accepted
    next first rest =>
      split_ifs at accepted with isModifier isOperator
      · cases found : Relation.ofLexemes (first :: rest) with
        | error fault => simp [found, Except.map] at accepted
        | ok relation =>
            simp only [found, Except.map, Except.ok.injEq] at accepted
            rw [← accepted]
            exact .relation (Relation.ofLexemes_eq_ok_iff.mp found)
      · split at accepted
        next parsed found => exact ((typed_iff proper).mp ⟨parsed, found, accepted⟩).1
        next => simp at accepted
  · intro denotes
    rcases denotes.head with ⟨operator, rest, relation, rfl, kind, related, rfl⟩ |
      ⟨name, rest, base, rfl, names, noRelation⟩
    · simp [ofLexemes, kind, Relation.ofLexemes_eq_ok_iff.mpr related, Except.map]
    · obtain ⟨parsed, found, meaning⟩ := (typed_iff proper).mpr ⟨denotes, noRelation⟩
      obtain ⟨notModifier, notOperator⟩ : name.kind ≠ .modifier ∧ name.kind ≠ .relationOp := by
        have isName := names.1
        constructor <;> intro kind <;> simp [Lexeme.isName, kind] at isName
      simp [ofLexemes, notModifier, notOperator, names.1, names.2, found, meaning]

theorem parse_eq_ok_iff {text : Text} {field : Field} :
    parse text = .ok field ↔ text.isBlank = false ∧ text.length ≤ maxExpressionLength ∧
      FieldDenotes (lexemesOf (tokenize text)) field := by
  have proper : ∀ lexeme ∈ lexemesOf (tokenize text), lexeme.Proper :=
    fun lexeme member => Lexer.proper_of_mem (lexemesOf_tokenize text ▸ member)
  rw [parse, Expression.read_eq_ok_iff, ofLexemes_eq_ok_iff proper]

/-- An expression is accepted exactly when it is written as a field, with the field it denotes. -/
theorem parse_accepts_iff_denotes (text : Text) (field : Field) :
    parse text = .ok field ↔ text.trim ≠ [] ∧ text.length ≤ maxExpressionLength ∧
      FieldDenotes (lexemesOf (tokenize text)) field := by
  rw [parse_eq_ok_iff, Ne, Text.trim_eq_nil_iff, Bool.not_eq_true]

end Field

end EntitySchema
