import EntitySchema.Proofs.Field.Parsed
import EntitySchema.Proofs.Field.RoundTrip
import EntitySchema.Proofs.Number.Length
import EntitySchema.Proofs.Text.Encoding
import EntitySchema.Proofs.Token.Size

/-!
How long a canonical text is. It can be longer than the text that was read, since an alias gives
way to the name of its type, blanks stand around the equals sign and behind an arrow, and some
bytes of a string need an escape. So a text at the limit can have a canonical text beyond it.
-/

namespace EntitySchema

open Lexer Expression

namespace Text

theorem length_ofChars_of_ascii {chars : List Char}
    (ascii : ∀ byte ∈ ofChars chars, byte < 0x80) : (ofChars chars).length = chars.length := by
  induction chars with
  | nil => rfl
  | cons char chars ih =>
      rw [ofChars_cons, List.forall_mem_append] at ascii
      rw [ofChars_cons, List.length_append, ih ascii.2, List.length_cons]
      obtain ⟨_, same⟩ | ⟨_, high⟩ := Rune.encode_cases char
      · rw [same, List.length_singleton, Nat.add_comm]
      · obtain ⟨first, rest, shape⟩ :=
          List.exists_cons_of_ne_nil (String.utf8EncodeChar_ne_nil (c := char))
        have low := ascii.1 first (by simp [shape])
        exact absurd (high first (by simp [shape])) (UInt8.not_le.mpr low)

theorem length_runes_le (text : Text) : text.runes.length ≤ text.length := by
  have spelled (runes : List Rune) (reads : ∀ rune ∈ runes, rune.IsRead) :
      runes.length ≤ (Rune.spell runes).length := by
    induction runes with
    | nil => exact Nat.le_refl _
    | cons rune runes ih =>
        rw [List.forall_mem_cons] at reads
        have some := List.length_pos_iff.mpr reads.1.bytes_ne_nil
        have others := ih reads.2
        rw [Rune.spell_cons, List.length_append, List.length_cons]
        omega
  have bound := spelled text.runes fun rune => isRead_of_mem_runes
  rwa [spell_runes] at bound

theorem length_le_of_lower {text name : Text}
    (ascii : (name.all fun byte => decide (byte < 0x80)) = true) (same : lower text = name) :
    name.length ≤ text.length := by
  subst same
  rw [lower] at ascii ⊢
  rw [length_ofChars_of_ascii (forall_mem_of_all ascii), List.length_map]
  exact length_runes_le text

theorem length_join {texts : List Text} (some : texts ≠ []) :
    (join (utf8 ",") texts).length + 1 = (texts.map List.length).sum + texts.length := by
  have comma : (utf8 ",").length = 1 := rfl
  induction texts with
  | nil => contradiction
  | cons text texts ih =>
      cases texts with
      | nil => simp [join]
      | cons second texts =>
          have length := ih (by simp)
          simp only [join, List.length_append, comma, List.map_cons, List.sum_cons,
            List.length_cons] at length ⊢
          omega

end Text

theorem Lexeme.Names.length_le {lexeme : Lexeme} {base : Text} (names : lexeme.Names base)
    (member : base ∈ TypeName.builtIn) :
    base.length ≤ lexeme.text.length + (if base = TypeName.boolean then 3 else 0) ∧
      (base = TypeName.boolean → 4 ≤ lexeme.text.length) := by
  have plain : ∀ name ∈ TypeName.builtIn, (name.all fun byte => decide (byte < 0x80)) = true := by
    decide
  have found := names.2
  simp only [TypeName.canonical?, Option.ite_none_right_eq_some, Option.some.injEq] at found
  obtain ⟨_, resolved⟩ := found
  by_cases aliased : lexeme.text.lower = utf8 "bool"
  · have long : 4 ≤ lexeme.text.length := Text.length_le_of_lower (by decide) aliased
    have same : base = TypeName.boolean := by
      rw [← resolved, aliased]
      rfl
    rw [if_pos same, same]
    exact ⟨Nat.add_le_add_right long 3, fun _ => long⟩
  · have same : lexeme.text.lower = base := by
      rw [← resolved]
      have other : (lexeme.text.lower == utf8 "bool") = false := beq_eq_false_iff_ne.mpr aliased
      simp [TypeName.aliases, other]
    have bound := Text.length_le_of_lower (plain base member) same
    refine ⟨Nat.le_add_right_of_le bound, ?_⟩
    rintro rfl
    exact le_trans (by decide) bound

theorem Lexeme.Names.length_le_of_ne {lexeme : Lexeme} {base : Text} (names : lexeme.Names base)
    (member : base ∈ TypeName.builtIn) (other : base ≠ TypeName.boolean) :
    base.length ≤ lexeme.text.length := by
  have bound := (names.length_le member).1
  rwa [if_neg other] at bound

theorem length_ofInt_le {text : Text} {value : Int} (read : readInteger? text = some value)
    (nonnegative : 0 ≤ value) : (Text.ofInt value).length ≤ text.length := by
  simp only [readInteger?, Option.ite_none_left_eq_some, Option.ite_none_right_eq_some,
    Option.some.injEq] at read
  generalize shape : (if (decide (text.head? = some 0x2D) || decide (text.head? = some 0x2B)) = true
    then text.drop 1 else text) = digits at read
  have few : digits.length ≤ text.length := by
    rw [← shape]
    split
    · rw [List.length_drop]
      omega
    · exact Nat.le_refl _
  obtain ⟨isDigits, _, rfl⟩ := read
  simp only [Bool.or_eq_true, List.isEmpty_iff, Bool.not_eq_true', not_or,
    Bool.not_eq_false, List.all_eq_true] at isDigits
  have small := Text.digitsValue_lt isDigits.2
  have some := List.length_pos_iff.mpr isDigits.1
  rw [ofInt_of_nonneg nonnegative, Decimal.length_ofNat]
  refine le_trans ((Decimal.digitCount_le_iff some).mpr ?_) few
  split_ifs <;> omega

section Denoted

variable {text : Text} {used : List Lexeme}

namespace TypeExpr

mutual

/-- How much longer a type may get: each boolean may have been written with its short name. -/
def growth : TypeExpr → Nat
  | .primitive name => if name = TypeName.boolean then 3 else 0
  | .parametric .. => 0
  | .generic _ arguments => growthOfAll arguments
  | .named _ => 0

def growthOfAll : List TypeExpr → Nat
  | [] => 0
  | argument :: arguments => argument.growth + growthOfAll arguments

end

theorem length_render_parametric (name : Text) (precision scale length : Option Int)
    (some : parameterTexts precision scale length ≠ []) :
    (parametric name precision scale length).render.length =
      name.length + ((parameterTexts precision scale length).map List.length).sum +
        (parameterTexts precision scale length).length + 1 := by
  have opening : (utf8 "(").length = 1 := rfl
  have closing : (utf8 ")").length = 1 := rfl
  have join := Text.length_join some
  simp only [render_parametric, List.length_append, opening, closing]
  omega

theorem length_render_generic (name : Text) {arguments : List TypeExpr} (some : arguments ≠ []) :
    (generic name arguments).render.length =
      name.length + (arguments.map fun argument => argument.render.length).sum +
        arguments.length + 1 := by
  have opening : (utf8 "<").length = 1 := rfl
  have closing : (utf8 ">").length = 1 := rfl
  have join := Text.length_join (mt List.map_eq_nil_iff.mp some : arguments.map render ≠ [])
  rw [List.map_map, List.length_map, Function.comp_def] at join
  simp only [render_generic, List.length_append, opening, closing]
  omega

end TypeExpr

theorem sizes_of_subset (read : used ⊆ lexemes text.runes) :
    ∀ lexeme ∈ used, 1 ≤ lexeme.text.length := fun _ member => length_pos_of_mem (read member)

theorem TypeDenotes.length_render_le {expr : TypeExpr} (denotes : TypeDenotes used expr)
    (read : used ⊆ lexemes text.runes) :
    expr.render.length ≤ (spelling used).length + expr.growth ∧
      expr.growth + 1 ≤ (spelling used).length := by
  have sizes := sizes_of_subset read
  induction denotes with
  | @primitive name base names isPrimitive =>
      have member : base ∈ TypeName.builtIn := by
        have primitive : base ∈ TypeName.primitives := by
          simpa [TypeName.isPrimitive] using isPrimitive
        simp [TypeName.builtIn, primitive]
      obtain ⟨bound, short⟩ := names.length_le member
      simp only [List.forall_mem_cons] at sizes
      simp only [TypeExpr.render_primitive, TypeExpr.growth, spelling_cons, spelling_nil,
        List.append_nil]
      refine ⟨bound, ?_⟩
      split
      next same => exact short same
      next => omega
  | decimal names _ value low _ _ =>
      have bound := names.length_le_of_ne (by decide) (by decide)
      have argument := length_ofInt_le value (by omega)
      rw [TypeExpr.length_render_parametric _ (some _) none none (List.cons_ne_nil _ _)]
      simp [TypeExpr.parameterTexts, TypeExpr.growth] at sizes ⊢
      omega
  | scaled names _ value low _ _ scaleValue above _ _ =>
      have bound := names.length_le_of_ne (by decide) (by decide)
      have argument := length_ofInt_le value (by omega)
      have second := length_ofInt_le scaleValue above
      rw [TypeExpr.length_render_parametric _ (some _) (some _) none (List.cons_ne_nil _ _)]
      simp [TypeExpr.parameterTexts, TypeExpr.growth] at sizes ⊢
      omega
  | sized names member _ value low _ =>
      have others : ∀ base ∈ TypeName.sized, base ∈ TypeName.builtIn ∧ base ≠ TypeName.boolean := by
        decide
      have bound := names.length_le_of_ne (others _ member).1 (others _ member).2
      have argument := length_ofInt_le value (by omega)
      rw [TypeExpr.length_render_parametric _ none none (some _) (List.cons_ne_nil _ _)]
      simp [TypeExpr.parameterTexts, TypeExpr.growth] at sizes ⊢
      omega
  | @map name opening comma closing left right key value names _ _ _ _ _ keyIh valueIh =>
      have bound := names.length_le_of_ne (by decide) (by decide)
      have keyBound := keyIh (fun lexeme member => read (by simp [member]))
        fun lexeme member => sizes lexeme (by simp [member])
      have valueBound := valueIh (fun lexeme member => read (by simp [member]))
        fun lexeme member => sizes lexeme (by simp [member])
      rw [TypeExpr.length_render_generic _ (List.cons_ne_nil _ _)]
      simp only [List.forall_mem_cons, List.forall_mem_append] at sizes
      simp [TypeExpr.growth, TypeExpr.growthOfAll]
      omega
  | @list name opening closing inner item names _ _ _ ih =>
      have bound := names.length_le_of_ne (by decide) (by decide)
      have itemBound := ih (fun lexeme member => read (by simp [member]))
        fun lexeme member => sizes lexeme (by simp [member])
      rw [TypeExpr.length_render_generic _ (List.cons_ne_nil _ _)]
      simp only [List.forall_mem_cons, List.forall_mem_append] at sizes
      simp [TypeExpr.growth, TypeExpr.growthOfAll]
      omega
  | named names member _ _ _ =>
      have others : ∀ base ∈ TypeName.nameTakers,
          base ∈ TypeName.builtIn ∧ base ≠ TypeName.boolean := by decide
      have bound := names.length_le_of_ne (others _ member).1 (others _ member).2
      rw [TypeExpr.length_render_generic _ (List.cons_ne_nil _ _)]
      simp only [List.forall_mem_cons] at sizes
      simp [TypeExpr.growth, TypeExpr.growthOfAll]
      omega

theorem SuffixesDenote.length_le {suffixes : List Suffix} (denote : SuffixesDenote used suffixes)
    (read : used ⊆ lexemes text.runes) :
    2 * suffixes.count .array + (suffixes.flatMap Suffix.modifierText).length ≤
      (spelling used).length := by
  induction denote with
  | nil => simp
  | array _ _ _ ih =>
      have sizes := sizes_of_subset read
      have rest := ih fun lexeme member => read (by simp [member])
      simp only [List.forall_mem_cons] at sizes
      simp only [List.count_cons_self, List.flatMap_cons, Suffix.modifierText, List.nil_append,
        spelling_cons, List.length_append]
      omega
  | @modifier modifier _ _ _ _ ih =>
      have rest := ih fun lexeme member => read (by simp [member])
      have other : (Suffix.modifier modifier.text == Suffix.array) = false := by
        rw [beq_eq_false_iff_ne]
        intro same
        cases same
      simp only [List.count_cons, other, Bool.false_eq_true, if_false, List.flatMap_cons,
        Suffix.modifierText, spelling_cons, List.length_append]
      omega

namespace DefaultValue

def isEscaped (byte : Byte) : Bool :=
  byte = 0x5C || byte = 0x22 || byte = 0x0A || byte = 0x09

/-- How much longer a default may get: a digit more for a number, and the escapes of a string. -/
def growth : DefaultValue → Nat
  | .number _ => 1
  | .string text => text.countP isEscaped
  | _ => 0

theorem length_quoteByte (byte : Byte) :
    (quoteByte byte).length = if isEscaped byte then 2 else 1 := by
  have newline : (utf8 "\\n").length = 2 := rfl
  have tab : (utf8 "\\t").length = 2 := rfl
  unfold quoteByte isEscaped
  split_ifs <;> simp_all

theorem length_quoteString (text : Text) :
    (quoteString text).length = text.length + text.countP isEscaped + 2 := by
  have quote : (utf8 "\"").length = 1 := rfl
  have body : (text.flatMap quoteByte).length = text.length + text.countP isEscaped := by
    induction text with
    | nil => rfl
    | cons byte text ih =>
        rw [List.flatMap_cons, List.length_append, ih, length_quoteByte, List.length_cons,
          List.countP_cons]
        split <;> omega
  simp only [quoteString, List.length_append, body, quote]
  omega

theorem length_resolveEscapes_le (text : Text) : (resolveEscapes text).length ≤ text.length := by
  fun_induction resolveEscapes text <;> simp only [List.length_cons, List.length_nil] <;> omega

theorem length_unquote?_le {text value : Text} (read : unquote? text = some value) :
    value.length + 2 ≤ text.length := by
  unfold unquote? at read
  split at read
  · simp at read
  · simp at read
  next quote rest notSingle =>
    simp only [Option.ite_none_right_eq_some, Option.some.injEq] at read
    obtain ⟨⟨closed, _⟩, rfl⟩ := read
    have some : rest ≠ [] := by
      rintro rfl
      simp at closed
    have bound := length_resolveEscapes_le rest.dropLast
    have shorter : rest.dropLast.length = rest.length - 1 := List.length_dropLast
    have positive := List.length_pos_iff.mpr some
    rw [List.length_cons]
    omega

end DefaultValue

theorem DefaultDenotes.length_render_le {value : DefaultValue}
    (denotes : DefaultDenotes used value) (read : used ⊆ lexemes text.runes) :
    value.render.length ≤ (spelling used).length + value.growth ∧
      value.growth ≤ (spelling used).length ∧ 1 ≤ (spelling used).length := by
  have sizes := sizes_of_subset read
  cases denotes with
  | function =>
      have marks : (utf8 "()").length = 2 := rfl
      simp only [List.forall_mem_cons] at sizes
      simp only [DefaultValue.render, DefaultValue.growth, spelling_cons, spelling_nil,
        List.length_append, List.append_nil, marks]
      omega
  | null _ same | true _ same | false _ same =>
      have bound := Text.length_le_of_lower (by decide) same
      simp only [List.forall_mem_cons] at sizes
      simp only [DefaultValue.render, DefaultValue.growth, spelling_cons, spelling_nil,
        List.append_nil]
      omega
  | @number number value kind meaning =>
      have bound := Binary.length_render_le (isNumeral_of_mem (read (by simp)) kind) meaning
      simp only [List.forall_mem_cons] at sizes
      simp only [DefaultValue.render, DefaultValue.growth, spelling_cons, spelling_nil,
        List.append_nil]
      omega
  | @string string value _ meaning =>
      have bound := DefaultValue.length_unquote?_le meaning
      have few := List.countP_le_length (p := DefaultValue.isEscaped) (l := value)
      simp only [DefaultValue.render, DefaultValue.length_quoteString, DefaultValue.growth,
        spelling_cons, spelling_nil, List.append_nil]
      omega
  | object =>
      have marks : (utf8 "\x7b\x7d").length = 2 := rfl
      simp only [List.forall_mem_cons] at sizes
      simp only [DefaultValue.render, DefaultValue.growth, spelling_cons, spelling_nil,
        List.length_append, List.append_nil, marks]
      omega
  | array =>
      have marks : (utf8 "[]").length = 2 := rfl
      simp only [List.forall_mem_cons] at sizes
      simp only [DefaultValue.render, DefaultValue.growth, spelling_cons, spelling_nil,
        List.length_append, List.append_nil, marks]
      omega

def Spells (lexemes : List Lexeme) (count : Nat) : Prop :=
  (∀ byte ∈ spelling lexemes, isVisible byte = true) ∧ (spelling lexemes).length = count

theorem Spells.append {left right : List Lexeme} {leftCount rightCount : Nat}
    (leftSpells : Spells left leftCount) (rightSpells : Spells right rightCount) :
    Spells (left ++ right) (leftCount + rightCount) := by
  refine ⟨?_, ?_⟩
  · rw [spelling_append, List.forall_mem_append]
    exact ⟨leftSpells.1, rightSpells.1⟩
  · rw [spelling_append, List.length_append, leftSpells.2, rightSpells.2]

theorem Spells.of_name {name : Lexeme} (read : name ∈ lexemes text.runes)
    (isName : name.isName = true) : Spells [name] name.text.length := by
  have visible := isVisible_of_name (IsName.of_mem_lexemes read isName)
  simp only [Spells, spelling_cons, spelling_nil, List.append_nil, and_true]
  exact visible

theorem Spells.of_mark {lexeme : Lexeme} {byte : Byte} (same : lexeme.text = [byte])
    (visible : isVisible byte = true) : Spells [lexeme] 1 := by
  simp [Spells, same, visible]

theorem InverseDenotes.spells {inverse : Text} (denotes : InverseDenotes used inverse)
    (read : used ⊆ lexemes text.runes) :
    Spells used (if inverse.isEmpty then [] else utf8 "." ++ inverse).length := by
  cases denotes with
  | none => exact ⟨by simp, rfl⟩
  | @some dot name kind isName =>
      have mark : dot.text = [0x2E] :=
        text_of_mark (read (by simp)) (by simp [relationMarks, kind])
      have present := (IsName.of_mem_lexemes (read (by simp)) isName).ne_nil
      have spells :=
        (Spells.of_mark mark (by decide)).append (Spells.of_name (read (by simp)) isName)
      have point : (utf8 ".").length = 1 := rfl
      rw [if_neg (by simpa using present), List.length_append, point]
      exact spells

theorem ArrayDenotes.spells {isArray : Bool} (denotes : ArrayDenotes used isArray)
    (read : used ⊆ lexemes text.runes) :
    Spells used (if isArray then utf8 "[]" else []).length := by
  cases denotes with
  | none => exact ⟨by simp, rfl⟩
  | @some opening closing opens closes =>
      have first : opening.text = [0x5B] :=
        text_of_mark (read (by simp)) (by simp [relationMarks, opens])
      have second : closing.text = [0x5D] :=
        text_of_mark (read (by simp)) (by simp [relationMarks, closes])
      exact (Spells.of_mark first (by decide)).append (Spells.of_mark second (by decide))

theorem QuestionDenotes.spells {isOptional : Bool} (denotes : QuestionDenotes used isOptional) :
    Spells used (if isOptional then utf8 "?" else []).length := by
  cases denotes with
  | none => exact ⟨by simp, rfl⟩
  | some _ mark => exact Spells.of_mark mark (by decide)

theorem RelationDenotes.length_render {relation : Relation}
    (denotes : RelationDenotes used relation) (read : used ⊆ lexemes text.runes) :
    (∀ byte ∈ spelling used, isVisible byte = true) ∧
      relation.render.length = (spelling used).length + 1 := by
  obtain @⟨operator, target, dotted, brackets, marks, inverse, isArray, isOptional, kind, isName,
    inverseDenotes, arrayDenotes, questionDenotes⟩ := denotes
  have arrow : Spells [operator] operator.text.length := by
    have all : ∀ arrow ∈ Operator.all, arrow.all isVisible = true := by decide
    have visible := all _ (mem_operators_of_lexeme (read (by simp)) kind)
    simp only [Spells, spelling_cons, spelling_nil, List.append_nil, and_true]
    exact List.all_eq_true.mp visible
  have spells := (arrow.append (Spells.of_name (read (by simp)) isName)).append
    (((inverseDenotes.spells fun lexeme member => read (by simp [member])).append
      (arrayDenotes.spells fun lexeme member => read (by simp [member]))).append
      questionDenotes.spells)
  refine ⟨spells.1, ?_⟩
  have length : (spelling (operator :: target :: (dotted ++ brackets ++ marks))).length = _ :=
    spells.2
  have blank : (utf8 " ").length = 1 := rfl
  have behind : (if Relation.hasInverse ⟨operator.text, target.text, inverse, isArray, isOptional⟩
      then utf8 "." ++ inverse else []) = if inverse.isEmpty then [] else utf8 "." ++ inverse := by
    cases inverse <;> rfl
  rw [length]
  simp only [Relation.render, behind, List.length_append, blank]
  omega

namespace Field

def growthOf : Option DefaultValue → Nat
  | none => 0
  | some value => value.growth + 2

def growth (field : Field) : Nat :=
  match field.relation with
  | some _ => 1
  | none => (field.expr.elim 0 TypeExpr.growth) + growthOf field.default

end Field

theorem AssignmentDenotes.length_le {default : Option DefaultValue}
    (denotes : AssignmentDenotes used default) (read : used ⊆ lexemes text.runes) :
    (Field.assignedText default).length ≤ (spelling used).length + Field.growthOf default ∧
      Field.growthOf default ≤ (spelling used).length + 1 := by
  cases denotes with
  | none => exact ⟨Nat.zero_le _, Nat.zero_le _⟩
  | some _ denotes =>
      have sizes := sizes_of_subset read
      obtain ⟨length, growth, some⟩ := denotes.length_render_le fun lexeme member =>
        read (by simp [member])
      simp only [List.forall_mem_cons] at sizes
      simp only [Field.assignedText, Field.growthOf, spelling_cons, List.length_cons,
        List.length_append]
      omega

theorem FieldDenotes.length_render_le {field : Field} (denotes : FieldDenotes used field)
    (read : used ⊆ lexemes text.runes) :
    field.render.length ≤ (spelling used).length + field.growth ∧
      field.growth ≤ (spelling used).length := by
  cases denotes with
  | relation denotes =>
      obtain ⟨operator, target, rest, rfl, _⟩ := denotes.head
      have sizes := sizes_of_subset read
      have length := (denotes.length_render read).2
      simp only [List.forall_mem_cons] at sizes
      simp only [Field.render, Field.growth, spelling_cons, List.length_append] at length ⊢
      omega
  | @typed base marks assigned expr suffixes default type suffixesDenote few assignment =>
      obtain ⟨typeLength, typeGrowth⟩ := type.length_render_le fun lexeme member =>
        read (by simp [member])
      have suffixLength := suffixesDenote.length_le fun lexeme member => read (by simp [member])
      obtain ⟨length, growth⟩ := assignment.length_le fun lexeme member => read (by simp [member])
      have brackets : (if suffixes.contains .array then utf8 "[]" else []).length ≤
          2 * suffixes.count .array := by
        split
        next marked =>
          have some := List.count_pos_iff.mpr (List.contains_iff_mem.mp marked)
          have two : (utf8 "[]").length = 2 := rfl
          omega
        next => exact Nat.zero_le _
      rw [Field.render_ofParts, TypeExpr.renderBefore_eq]
      have grows : (Field.ofParts expr (suffixes.flatMap Suffix.modifierText)
          (suffixes.contains .array) default).growth = expr.growth + Field.growthOf default := rfl
      simp only [grows, spelling_append, List.length_append]
      omega

end Denoted

/--
A canonical text is not longer than the text it comes from by more than the growth of its field,
which is not longer than that text. So it is accepted again unless the text was near the limit,
and a relation is too long exactly when its text was at the limit and had no blanks.
-/
theorem parse_render_of_parse (text : Text) :
    (∀ field, Field.parse text = .ok field →
      field.render.length ≤ text.length + field.growth ∧ field.growth ≤ text.length ∧
      Field.parse field.render =
        if maxExpressionLength < field.render.length then .error { cause := .tooLong }
        else .ok field) ∧
    ∀ relation, Relation.parse text = .ok relation →
      relation.render.length = (text.filter isVisible).length + 1 ∧
      Relation.parse relation.render =
        if maxExpressionLength < relation.render.length then .error { cause := .tooLong }
        else .ok relation := by
  constructor
  · intro field parsed
    have wellFormed := Field.wellFormed_of_parse parsed
    obtain ⟨_, _, denotes⟩ := Field.parse_eq_ok_iff.mp parsed
    rw [lexemesOf_tokenize] at denotes
    obtain ⟨length, growth⟩ := denotes.length_render_le (List.Subset.refl _)
    have bound := length_spelling_le text
    refine ⟨by omega, by omega, ?_⟩
    split
    next long => exact Expression.read_of_long wellFormed.not_blank long
    next short => exact wellFormed.parse_render (not_lt.mp short)
  · intro relation parsed
    have wellFormed := Relation.wellFormed_of_parse parsed
    obtain ⟨_, _, denotes⟩ := Relation.parse_eq_ok_iff.mp parsed
    rw [lexemesOf_tokenize] at denotes
    obtain ⟨visible, length⟩ := denotes.length_render (List.Subset.refl _)
    have bytes := (spelling_lexemes fun rune (member : rune ∈ text.runes) =>
      Text.isRead_of_mem_runes member).2
    rw [Text.spell_runes, List.filter_eq_self.mpr visible] at bytes
    refine ⟨bytes ▸ length, ?_⟩
    split
    next long =>
      exact Expression.read_of_long (Field.WellFormed.relation wellFormed).not_blank long
    next short => exact wellFormed.parse_render (not_lt.mp short)

def flagField : Field :=
  .ofParts (.primitive TypeName.boolean) [] false (some (.boolean true))

theorem parse_flag : Field.parse (utf8 "bool=true") = .ok flagField := by
  have name : IsName (utf8 "bool") := .of_isPlain (by decide)
  have ends : EndsName (0x3D :: utf8 "true") := endsName_cons (by decide) _
  have read : lexemesOf (tokenize (utf8 "bool=true")) =
      [IsName.lexeme (utf8 "bool")] ++ [] ++ [⟨.equals, [0x3D]⟩, IsName.lexeme (utf8 "true")] := by
    rw [lexemesOf_tokenize, show utf8 "bool=true" = utf8 "bool" ++ 0x3D :: utf8 "true" from rfl,
      name.lexemes_append ends, lexemes_mark rfl, DefaultValue.lexemes_word (by decide)]
    rfl
  refine Field.parse_eq_ok_iff.mpr ⟨Text.isBlank_of_ascii (by decide) (by decide) _, by decide, ?_⟩
  rw [read]
  exact .typed (.primitive ⟨IsName.isName_lexeme _, by decide⟩ (by decide)) .nil (by decide)
    (.some rfl (.true (by decide) (by decide)))

namespace Relation

def arrowTo (name : Text) : Relation := { operator := Operator.forward, target := name }

theorem parse_arrowTo {name : Text} (isName : IsName name)
    (short : name.length + 2 ≤ maxExpressionLength) :
    parse (Operator.forward ++ name) = .ok (arrowTo name) ∧
      Field.parse (Operator.forward ++ name) = .ok (Field.ofRelation (arrowTo name)) := by
  have visible : Text.isBlank (Operator.forward ++ name) = false :=
    Field.isBlank_of_startsVisibly (by decide) name
  have length : (Operator.forward ++ name).length ≤ maxExpressionLength := by
    have arrow : Operator.forward.length = 2 := rfl
    rw [List.length_append, arrow]
    omega
  have read := isName.lexemes_append endsName_nil
  rw [List.append_nil, Text.runes_nil, lexemes_nil] at read
  have denotes : RelationDenotes (lexemesOf (tokenize (Operator.forward ++ name)))
      (arrowTo name) := by
    rw [lexemesOf_tokenize, lexemes_arrow (by decide), read]
    exact .mk rfl (IsName.isName_lexeme name) .none .none .none
  exact ⟨parse_eq_ok_iff.mpr ⟨visible, length, denotes⟩,
    Field.parse_eq_ok_iff.mpr ⟨visible, length, .relation denotes⟩⟩

theorem length_render_arrowTo (name : Text) : (arrowTo name).render.length = name.length + 3 := by
  have arrow : (Operator.forward ++ utf8 " ").length = 3 := rfl
  simp only [render, arrowTo, hasInverse, List.isEmpty_nil, Bool.not_true, Bool.false_eq_true,
    if_false, List.append_nil]
  rw [List.length_append, arrow, Nat.add_comm]

end Relation

theorem parse_render_of_parse_flag :
    (Field.parse (utf8 "bool=true") = .ok flagField ∧ flagField.render.length = 14 ∧
      Field.parse flagField.render = .ok flagField) ∧
    Relation.parse (utf8 "->User") = .ok (.arrowTo (utf8 "User")) ∧
      (Relation.arrowTo (utf8 "User")).render.length = 7 ∧
      Relation.parse (Relation.arrowTo (utf8 "User")).render = .ok (.arrowTo (utf8 "User")) := by
  have isName : IsName (utf8 "User") := .of_isPlain (by decide)
  have parsed := (Relation.parse_arrowTo isName (by decide)).1
  exact ⟨⟨parse_flag, by decide,
    ((parse_render_of_parse _).1 _ parse_flag).2.2.trans (if_neg (by decide))⟩, parsed, by decide,
    ((parse_render_of_parse _).2 _ parsed).2.trans (if_neg (by decide))⟩

theorem isName_letters (count : Nat) : IsName (List.replicate (count + 1) 0x61) := by
  have letter : ∀ byte ∈ List.replicate count (0x61 : Byte), byte = 0x61 :=
    fun _ member => List.eq_of_mem_replicate member
  have plain : decide ((0x61 : Byte) < 0x80) = true ∧ startsName (Rune.ofByte 0x61) = true ∧
      continuesName (Rune.ofByte 0x61) = true := by decide
  refine .of_isPlain ?_
  rw [List.replicate_succ]
  simp only [IsName.isPlain, Bool.and_eq_true, List.all_eq_true, List.forall_mem_cons]
  refine ⟨⟨⟨plain.1, fun byte member => ?_⟩, plain.2.1⟩, fun byte member => ?_⟩
  · rw [letter byte member]
    exact plain.1
  · rw [letter byte member]
    exact plain.2.2

def longName : Text := List.replicate (65533 + 1) 0x61

/-- The canonical text of an arrow and a long name is refused, though the text was accepted. -/
theorem parse_render_beyond_limit :
    Relation.parse (Operator.forward ++ longName) = .ok (.arrowTo longName) ∧
      Field.parse (Operator.forward ++ longName) = .ok (.ofRelation (.arrowTo longName)) ∧
      (Relation.arrowTo longName).render.length = maxExpressionLength + 1 ∧
      Relation.parse (Relation.arrowTo longName).render = .error { cause := .tooLong } ∧
      Field.parse (Field.ofRelation (.arrowTo longName)).render =
        .error { cause := .tooLong } := by
  have size : longName.length = 65534 := List.length_replicate
  have isName : IsName longName := isName_letters 65533
  obtain ⟨relationParsed, fieldParsed⟩ := Relation.parse_arrowTo isName (by rw [size]; decide)
  have long : (Relation.arrowTo longName).render.length = maxExpressionLength + 1 := by
    rw [Relation.length_render_arrowTo, size]
    rfl
  have visible := (Field.wellFormed_of_parse fieldParsed).not_blank
  exact ⟨relationParsed, fieldParsed, long, Expression.read_of_long visible (by omega),
    Expression.read_of_long visible (by
      have same : (Field.ofRelation (.arrowTo longName)).render =
        (Relation.arrowTo longName).render := rfl
      rw [same]
      omega)⟩

end EntitySchema
