import EntitySchema.Proofs.Field.Grammar
import EntitySchema.Proofs.Number.Numeral
import EntitySchema.Proofs.Token.Quoted
import EntitySchema.Proofs.Token.Written

/-!
Types, defaults, relations and fields that can be written down. Each of them is a value that some
expression denotes, and what it is written as is read back lexeme by lexeme.
-/

namespace EntitySchema

open Lexer Expression

namespace TypeName

def builtIn : List Text := primitives ++ [decimal, utf8 "map", list] ++ sized ++ nameTakers

theorem builtIn_name {base : Text} (member : base ∈ builtIn) :
    IsName base ∧ (IsName.lexeme base).Names base := by
  have all : ∀ base ∈ builtIn, IsName.isPlain base = true ∧ canonical? base = some base := by
    decide
  obtain ⟨plain, known⟩ := all base member
  exact ⟨.of_isPlain plain, IsName.isName_lexeme base, known⟩

end TypeName

namespace TypeExpr

inductive Valid : TypeExpr → Prop
  | primitive {base : Text} : base ∈ TypeName.primitives → Valid (.primitive base)
  | decimal {precision : Int} : 1 ≤ precision → precision ≤ 38 →
      Valid (.parametric TypeName.decimal (some precision) none none)
  | scaled {precision scale : Int} : 1 ≤ precision → precision ≤ 38 → 0 ≤ scale →
      scale ≤ precision → Valid (.parametric TypeName.decimal (some precision) (some scale) none)
  | sized {base : Text} {length : Int} : base ∈ TypeName.sized → 1 ≤ length →
      length ≤ 2 ^ 63 - 1 → Valid (.parametric base none none (some length))
  | map {key value : TypeExpr} : Valid key → Valid value →
      Valid (.generic (utf8 "map") [key, value])
  | list {item : TypeExpr} : Valid item → Valid (.generic TypeName.list [item])
  | named {base name : Text} : base ∈ TypeName.nameTakers → IsName name →
      Valid (.generic base [.named name])

theorem lexemes_integer {number : Int} (nonnegative : 0 ≤ number) {tail : Text}
    (ends : EndsNumber tail) :
    lexemes (Text.runes (Text.ofInt number ++ tail)) =
      ⟨.number, Text.ofInt number⟩ :: lexemes tail.runes := by
  rw [ofInt_of_nonneg nonnegative]
  exact lexemes_numeral (.positive (.whole (Text.isDigits_ofNat _))) ends

theorem endsNumber_cons {byte : Byte}
    (ends : byte < 0x80 ∧ Text.isAsciiDigit byte = false ∧ byte ≠ 0x2E) (tail : Text) :
    EndsNumber (byte :: tail) := by
  simpa [EndsNumber] using ends

theorem lexemes_oneParameter {number : Int} (nonnegative : 0 ≤ number) (tail : Text) :
    lexemes (Text.runes (Text.join [0x2C] [Text.ofInt number] ++ 0x29 :: tail)) =
      [⟨.number, Text.ofInt number⟩] ++ lexemes (Text.runes (0x29 :: tail)) := by
  rw [Text.join, lexemes_integer nonnegative (endsNumber_cons (by decide) tail),
    List.singleton_append]

theorem lexemes_twoParameters {first second : Int} (firstNonnegative : 0 ≤ first)
    (secondNonnegative : 0 ≤ second) (tail : Text) :
    lexemes (Text.runes
      (Text.join [0x2C] [Text.ofInt first, Text.ofInt second] ++ 0x29 :: tail)) =
        [⟨.number, Text.ofInt first⟩, ⟨.comma, [0x2C]⟩, ⟨.number, Text.ofInt second⟩] ++
          lexemes (Text.runes (0x29 :: tail)) := by
  simp only [Text.join, List.append_assoc, List.cons_append, List.nil_append]
  rw [lexemes_integer firstNonnegative (endsNumber_cons (by decide) _), lexemes_mark rfl,
    lexemes_integer secondNonnegative (endsNumber_cons (by decide) tail)]

theorem renderBefore_generic (name : Text) (arguments : List TypeExpr) (rest : Text) :
    (generic name arguments).renderBefore rest =
      name ++ 0x3C :: renderAllBefore (0x3E :: rest) arguments := by
  simp [renderBefore, show utf8 "<" = [0x3C] from rfl, show utf8 ">" = [0x3E] from rfl]

theorem renderBefore_parametric (name : Text) (precision scale length : Option Int)
    (rest : Text) :
    (parametric name precision scale length).renderBefore rest =
      name ++ 0x28 :: (Text.join [0x2C] (parameterTexts precision scale length) ++
        0x29 :: rest) := by
  simp [renderBefore, show utf8 "(" = [0x28] from rfl, show utf8 "," = [0x2C] from rfl,
    show utf8 ")" = [0x29] from rfl]

/-- Written in front of anything that ends a name, the type is read as these lexemes. -/
def WrittenAs (expr : TypeExpr) (used : List Lexeme) : Prop :=
  ∀ tail, EndsName tail → nextIs startsName (Text.runes (expr.renderBefore tail)) = true ∧
    lexemes (Text.runes (expr.renderBefore tail)) = used ++ lexemes tail.runes

theorem writtenAs_primitive {base : Text} (name : IsName base) :
    WrittenAs (.primitive base) [IsName.lexeme base] := by
  intro tail ends
  rw [renderBefore]
  exact ⟨name.nextIs_startsName ends, name.lexemes_append ends⟩

theorem writtenAs_parametric {base : Text} (name : IsName base)
    {precision scale length : Option Int} {inner : List Lexeme}
    (parameters : ∀ tail, lexemes (Text.runes
      (Text.join [0x2C] (parameterTexts precision scale length) ++ 0x29 :: tail)) =
        inner ++ lexemes (Text.runes (0x29 :: tail))) :
    WrittenAs (.parametric base precision scale length)
      (IsName.lexeme base :: ⟨.lParen, [0x28]⟩ :: (inner ++ [⟨.rParen, [0x29]⟩])) := by
  intro tail _
  have opens : EndsName (0x28 :: (Text.join [0x2C] (parameterTexts precision scale length) ++
      0x29 :: tail)) := endsName_cons (by decide) _
  rw [renderBefore_parametric]
  refine ⟨name.nextIs_startsName opens, ?_⟩
  rw [name.lexemes_append opens, lexemes_mark rfl, parameters, lexemes_mark rfl]
  simp

theorem writtenAs_generic {base : Text} (name : IsName base) {arguments : List TypeExpr}
    {inner : List Lexeme}
    (written : ∀ tail, nextIs startsName (Text.runes (renderAllBefore (0x3E :: tail) arguments)) =
        true ∧
      lexemes (Text.runes (renderAllBefore (0x3E :: tail) arguments)) =
        inner ++ lexemes (Text.runes (0x3E :: tail))) :
    WrittenAs (.generic base arguments)
      (IsName.lexeme base :: ⟨.lAngle, [0x3C]⟩ :: (inner ++ [⟨.rAngle, [0x3E]⟩])) := by
  intro tail _
  obtain ⟨starts, read⟩ := written tail
  have opens : EndsName (0x3C :: renderAllBefore (0x3E :: tail) arguments) :=
    endsName_cons (by decide) _
  rw [renderBefore_generic]
  refine ⟨name.nextIs_startsName opens, ?_⟩
  rw [name.lexemes_append opens, lexemes_lAngle starts, read, lexemes_mark rfl]
  simp

theorem Valid.baseName_mem {expr : TypeExpr} (valid : expr.Valid) :
    expr.baseName ∈ TypeName.builtIn := by
  cases valid with
  | primitive member => simp [baseName, TypeName.builtIn, member]
  | decimal => simp [baseName, TypeName.builtIn]
  | scaled => simp [baseName, TypeName.builtIn]
  | sized member => simp [baseName, TypeName.builtIn, member]
  | map => simp [baseName, TypeName.builtIn]
  | list => simp [baseName, TypeName.builtIn]
  | named member => simp [baseName, TypeName.builtIn, member]

theorem Valid.names {expr : TypeExpr} (valid : expr.Valid) :
    IsName expr.baseName ∧ (IsName.lexeme expr.baseName).Names expr.baseName :=
  TypeName.builtIn_name valid.baseName_mem

theorem Valid.written {expr : TypeExpr} (valid : expr.Valid) :
    ∃ used, TypeDenotes used expr ∧ expr.WrittenAs used := by
  induction valid with
  | @primitive base member =>
      obtain ⟨name, names⟩ := (Valid.primitive member).names
      exact ⟨_, .primitive names (by simpa [TypeName.isPrimitive] using member),
        writtenAs_primitive name⟩
  | @decimal precision low high =>
      obtain ⟨name, names⟩ := (Valid.decimal low high).names
      have value : readInteger? (Text.ofInt precision) = some precision :=
        readInteger?_ofInt (by omega) (by omega)
      refine ⟨_, ?_, writtenAs_parametric name (lexemes_oneParameter (by omega))⟩
      exact .decimal names rfl value low high rfl
  | @scaled precision scale low high above below =>
      obtain ⟨name, names⟩ := (Valid.scaled low high above below).names
      have value : readInteger? (Text.ofInt precision) = some precision :=
        readInteger?_ofInt (by omega) (by omega)
      have scaleValue : readInteger? (Text.ofInt scale) = some scale :=
        readInteger?_ofInt above (by omega)
      refine ⟨_, ?_, writtenAs_parametric name (lexemes_twoParameters (by omega) above)⟩
      exact .scaled names rfl value low high rfl scaleValue above below rfl
  | @sized base length member low high =>
      obtain ⟨name, names⟩ := (Valid.sized member low high).names
      have value : readInteger? (Text.ofInt length) = some length :=
        readInteger?_ofInt (by omega) (by omega)
      refine ⟨_, ?_, writtenAs_parametric name (lexemes_oneParameter (by omega))⟩
      exact .sized names member rfl value low rfl
  | @map key value keyValid valueValid keyIh valueIh =>
      obtain ⟨name, names⟩ := (Valid.map keyValid valueValid).names
      obtain ⟨left, keyDenotes, keyWritten⟩ := keyIh
      obtain ⟨right, valueDenotes, valueWritten⟩ := valueIh
      have read (tail : Text) :
          nextIs startsName (Text.runes (renderAllBefore (0x3E :: tail) [key, value])) = true ∧
            lexemes (Text.runes (renderAllBefore (0x3E :: tail) [key, value])) =
              left ++ ⟨.comma, [0x2C]⟩ :: right ++ lexemes (Text.runes (0x3E :: tail)) := by
        obtain ⟨_, valueRead⟩ := valueWritten (0x3E :: tail) (endsName_cons (by decide) tail)
        obtain ⟨starts, keyRead⟩ := keyWritten (0x2C :: value.renderBefore (0x3E :: tail))
          (endsName_cons (by decide) _)
        simp only [renderAllBefore, show utf8 "," = [0x2C] from rfl, List.singleton_append]
        refine ⟨starts, ?_⟩
        rw [keyRead, lexemes_mark rfl, valueRead]
        simp
      exact ⟨_, .map names rfl keyDenotes rfl valueDenotes rfl, writtenAs_generic name read⟩
  | @list item itemValid ih =>
      obtain ⟨name, names⟩ := (Valid.list itemValid).names
      obtain ⟨inner, denotes, written⟩ := ih
      have read (tail : Text) :
          nextIs startsName (Text.runes (renderAllBefore (0x3E :: tail) [item])) = true ∧
            lexemes (Text.runes (renderAllBefore (0x3E :: tail) [item])) =
              inner ++ lexemes (Text.runes (0x3E :: tail)) := by
        rw [renderAllBefore]
        exact written _ (endsName_cons (by decide) tail)
      exact ⟨_, .list names rfl denotes rfl, writtenAs_generic name read⟩
  | @named base argument member isName =>
      obtain ⟨name, names⟩ := (Valid.named member isName).names
      have read (tail : Text) :
          nextIs startsName (Text.runes (renderAllBefore (0x3E :: tail) [.named argument])) =
              true ∧
            lexemes (Text.runes (renderAllBefore (0x3E :: tail) [.named argument])) =
              [IsName.lexeme argument] ++ lexemes (Text.runes (0x3E :: tail)) := by
        have ends : EndsName (0x3E :: tail) := endsName_cons (by decide) tail
        rw [renderAllBefore, renderBefore]
        exact ⟨isName.nextIs_startsName ends, isName.lexemes_append ends⟩
      exact ⟨_, .named names member rfl (IsName.isName_lexeme argument) rfl,
        writtenAs_generic name read⟩

end TypeExpr

namespace DefaultValue

def WellFormed : DefaultValue → Prop
  | .number value => value.IsDouble
  | .function name => IsName name
  | .unknown => False
  | _ => True

theorem lexemes_word {word : Text} (plain : IsName.isPlain word = true) :
    lexemes word.runes = [IsName.lexeme word] := by
  have read := (IsName.of_isPlain plain).lexemes_append endsName_nil
  rwa [List.append_nil, Text.runes_nil, lexemes_nil] at read

theorem WellFormed.written {value : DefaultValue} (wellFormed : value.WellFormed) :
    DefaultDenotes (lexemes value.render.runes) value := by
  cases value with
  | null =>
      rw [render, lexemes_word (by decide)]
      exact .null (by decide) (by decide)
  | boolean value =>
      cases value with
      | true =>
          rw [render, lexemes_word (by decide)]
          exact .true (by decide) (by decide)
      | false =>
          rw [render, lexemes_word (by decide)]
          exact .false (by decide) (by decide)
  | number value =>
      have numeral : Decimal.IsNumeral (value.render .double .positional) := by
        cases value with
        | finite => exact Decimal.isNumeral_render _
        | infinite => exact wellFormed.elim
        | nan => exact wellFormed.elim
      have read := lexemes_numeral numeral (show EndsNumber [] by simp [EndsNumber])
      rw [List.append_nil, Text.runes_nil, lexemes_nil] at read
      rw [render, read]
      exact .number rfl (Binary.readDouble?_render wellFormed)
  | string text =>
      have read := lexemes_quoteString text []
      rw [List.append_nil, Text.runes_nil, lexemes_nil] at read
      rw [render, read]
      exact .string rfl (unquote?_quoteString text)
  | function name =>
      have isName : IsName name := wellFormed
      have ends : EndsName [0x28, 0x29] := endsName_cons (by decide) _
      have read := isName.lexemes_append ends
      rw [lexemes_mark rfl, lexemes_mark rfl, Text.runes_nil, lexemes_nil] at read
      rw [render, show utf8 "()" = [0x28, 0x29] from rfl, read]
      exact .function (IsName.isName_lexeme name) rfl rfl
  | object =>
      rw [render, show utf8 "\x7b\x7d" = [0x7B, 0x7D] from rfl, lexemes_mark rfl, lexemes_mark rfl,
        Text.runes_nil, lexemes_nil]
      exact .object rfl rfl
  | array =>
      rw [render, show utf8 "[]" = [0x5B, 0x5D] from rfl, lexemes_mark rfl, lexemes_mark rfl,
        Text.runes_nil, lexemes_nil]
      exact .array rfl rfl
  | unknown => exact wellFormed.elim

end DefaultValue

theorem lexemes_brackets (isArray : Bool) (tail : Text) :
    ∃ used, ArrayDenotes used isArray ∧
      lexemes (Text.runes ((if isArray then utf8 "[]" else []) ++ tail)) =
        used ++ lexemes tail.runes := by
  cases isArray with
  | false => exact ⟨[], .none, rfl⟩
  | true =>
      refine ⟨[⟨.lBracket, [0x5B]⟩, ⟨.rBracket, [0x5D]⟩], .some rfl rfl, ?_⟩
      simp only [if_true, show utf8 "[]" = [0x5B, 0x5D] from rfl, List.cons_append,
        List.nil_append]
      rw [lexemes_mark rfl, lexemes_mark rfl]

theorem endsName_brackets (isArray : Bool) {tail : Text} (ends : EndsName tail) :
    EndsName ((if isArray then utf8 "[]" else []) ++ tail) := by
  cases isArray with
  | false => exact ends
  | true => exact endsName_cons (by decide) _

namespace Relation

structure WellFormed (relation : Relation) : Prop where
  operator : relation.operator ∈ Operator.all
  target : IsName relation.target
  inverse : relation.inverse = [] ∨ IsName relation.inverse

theorem lexemes_question (isOptional : Bool) :
    QuestionDenotes (lexemes (Text.runes (if isOptional then utf8 "?" else []))) isOptional := by
  cases isOptional with
  | false =>
      simp only [Bool.false_eq_true, if_false, Text.runes_nil, lexemes_nil]
      exact .none
  | true =>
      simp only [if_true, show utf8 "?" = [0x3F] from rfl]
      rw [lexemes_mark rfl, Text.runes_nil, lexemes_nil]
      exact .some rfl rfl

theorem endsName_question (isOptional : Bool) : EndsName (if isOptional then utf8 "?" else []) := by
  cases isOptional with
  | false => exact endsName_nil
  | true => exact endsName_cons (by decide) _

theorem lexemes_inverse {inverse : Text} (named : inverse = [] ∨ IsName inverse) {tail : Text}
    (ends : EndsName tail) :
    ∃ used, InverseDenotes used inverse ∧
      lexemes (Text.runes ((if inverse.isEmpty then [] else utf8 "." ++ inverse) ++ tail)) =
        used ++ lexemes tail.runes := by
  rcases named with rfl | isName
  · exact ⟨[], .none, rfl⟩
  · have present : inverse.isEmpty = false := List.isEmpty_eq_false_iff.mpr isName.ne_nil
    refine ⟨[⟨.dot, [0x2E]⟩, IsName.lexeme inverse], .some rfl (IsName.isName_lexeme inverse), ?_⟩
    simp only [present, Bool.false_eq_true, if_false, show utf8 "." = [0x2E] from rfl,
      List.cons_append, List.nil_append]
    rw [lexemes_mark rfl, isName.lexemes_append ends]

theorem endsName_inverse (inverse : Text) {tail : Text} (ends : EndsName tail) :
    EndsName ((if inverse.isEmpty then [] else utf8 "." ++ inverse) ++ tail) := by
  cases inverse with
  | nil => exact ends
  | cons => exact endsName_cons (by decide) _

theorem WellFormed.written {relation : Relation} (wellFormed : relation.WellFormed) :
    RelationDenotes (lexemes relation.render.runes) relation := by
  obtain ⟨operator, target, inverse, isArray, isOptional⟩ := relation
  obtain ⟨isOperator, isTarget, isInverse⟩ := wellFormed
  have marks := endsName_brackets isArray (endsName_question isOptional)
  obtain ⟨brackets, arrayDenotes, arrayRead⟩ :=
    lexemes_brackets isArray (if isOptional then utf8 "?" else [])
  obtain ⟨dotted, inverseDenotes, inverseRead⟩ := lexemes_inverse isInverse marks
  have shape : render ⟨operator, target, inverse, isArray, isOptional⟩ =
      operator ++ 0x20 :: (target ++ ((if inverse.isEmpty then [] else utf8 "." ++ inverse) ++
        ((if isArray then utf8 "[]" else []) ++ if isOptional then utf8 "?" else []))) := by
    cases inverse <;> simp [render, hasInverse, show utf8 " " = [0x20] from rfl]
  rw [shape, lexemes_arrow isOperator, lexemes_of_blank_cons (by decide),
    isTarget.lexemes_append (endsName_inverse inverse marks), inverseRead, arrayRead,
    ← List.append_assoc]
  exact .mk rfl (IsName.isName_lexeme target) inverseDenotes arrayDenotes
    (lexemes_question isOptional)

end Relation

namespace Field

def modifierBytes : List Byte := [0x21, 0x3F, 0x23]

/-- The fields that an expression can say: a relation, or a type with modifiers and a default. -/
inductive WellFormed : Field → Prop
  | relation {relation : Relation} : relation.WellFormed →
      WellFormed
        { type := TypeName.relation, isArray := relation.isArray,
          isOptional := relation.isOptional, relation := some relation }
  | typed {expr : TypeExpr} {modifier : Text} {isArray : Bool} {default : Option DefaultValue} :
      expr.Valid → (∀ byte ∈ modifier, byte ∈ modifierBytes) →
      (∀ value ∈ default, value.WellFormed) →
      WellFormed (ofParts expr modifier isArray default)

theorem modifierText_ofParts (expr : TypeExpr) (modifier : Text) (isArray : Bool)
    (default : Option DefaultValue) :
    (ofParts expr modifier isArray default).modifierText = modifier := by
  cases modifier <;> simp [modifierText, ofParts]

def assignedText : Option DefaultValue → Text
  | none => []
  | some value => 0x20 :: 0x3D :: 0x20 :: value.render

theorem render_ofParts (expr : TypeExpr) (modifier : Text) (isArray : Bool)
    (default : Option DefaultValue) :
    (ofParts expr modifier isArray default).render =
      expr.renderBefore ((if isArray then utf8 "[]" else []) ++
        (modifier ++ assignedText default)) := by
  have noRelation : (ofParts expr modifier isArray default).relation = none := rfl
  rw [render, noRelation, modifierText_ofParts, TypeExpr.renderBefore_eq]
  cases default <;> simp [typeText, ofParts, assignedText,
    show utf8 " = " = [0x20, 0x3D, 0x20] from rfl]

theorem lexemes_assigned {default : Option DefaultValue}
    (wellFormed : ∀ value ∈ default, value.WellFormed) :
    AssignmentDenotes (lexemes (Text.runes (assignedText default))) default := by
  cases default with
  | none =>
      rw [assignedText, Text.runes_nil, lexemes_nil]
      exact .none
  | some value =>
      rw [assignedText, lexemes_of_blank_cons (by decide), lexemes_mark rfl,
        lexemes_of_blank_cons (by decide)]
      exact .some rfl (wellFormed value rfl).written

theorem endsName_assigned (default : Option DefaultValue) : EndsName (assignedText default) := by
  cases default with
  | none => exact endsName_nil
  | some value => exact endsName_cons (by decide) _

theorem lexemes_modifiers {modifier : Text} (known : ∀ byte ∈ modifier, byte ∈ modifierBytes)
    (tail : Text) :
    ∃ used, SuffixesDenote used (modifier.map fun byte => .modifier [byte]) ∧
      lexemes (Text.runes (modifier ++ tail)) = used ++ lexemes tail.runes := by
  have all : ∀ byte ∈ modifierBytes, marks.lookup byte = some .modifier :=
    forall_mem_of_all (by decide)
  induction modifier with
  | nil => exact ⟨[], .nil, rfl⟩
  | cons byte modifier ih =>
      rw [List.forall_mem_cons] at known
      obtain ⟨used, denote, read⟩ := ih known.2
      refine ⟨⟨.modifier, [byte]⟩ :: used, .modifier rfl denote, ?_⟩
      rw [List.cons_append, lexemes_mark (all byte known.1), read, List.cons_append]

theorem endsName_modifiers {modifier : Text} (known : ∀ byte ∈ modifier, byte ∈ modifierBytes)
    {tail : Text} (ends : EndsName tail) : EndsName (modifier ++ tail) := by
  have all : ∀ byte ∈ modifierBytes, byte < 0x80 ∧ continuesName (Rune.ofByte byte) = false :=
    forall_mem_of_all (by decide)
  cases modifier with
  | nil => exact ends
  | cons byte modifier => exact endsName_cons (all byte (known byte (by simp))) _

theorem suffixesDenote_of_array {brackets rest : List Lexeme} {isArray : Bool}
    {suffixes : List Suffix} (array : ArrayDenotes brackets isArray)
    (denote : SuffixesDenote rest suffixes) :
    SuffixesDenote (brackets ++ rest) ((if isArray then [.array] else []) ++ suffixes) := by
  cases array with
  | none => exact denote
  | some opens closes => exact .array opens closes denote

def suffixesOf (isArray : Bool) (modifier : Text) : List Suffix :=
  (if isArray then [.array] else []) ++ modifier.map fun byte => .modifier [byte]

theorem array_notMem_modifiers (modifier : Text) :
    Suffix.array ∉ modifier.map fun byte => Suffix.modifier [byte] := by
  simp

theorem suffixesOf_spec (isArray : Bool) (modifier : Text) :
    (suffixesOf isArray modifier).count .array ≤ 1 ∧
      (suffixesOf isArray modifier).contains .array = isArray ∧
      (suffixesOf isArray modifier).flatMap Suffix.modifierText = modifier := by
  have none := List.count_eq_zero_of_not_mem (array_notMem_modifiers modifier)
  have spelled : (modifier.map fun byte => Suffix.modifier [byte]).flatMap Suffix.modifierText =
      modifier := by
    simp [List.flatMap_map, Suffix.modifierText]
  cases isArray with
  | false => simp [suffixesOf, none, spelled]
  | true => simp [suffixesOf, none, spelled, Suffix.modifierText]

theorem WellFormed.written {field : Field} (wellFormed : field.WellFormed) :
    FieldDenotes (lexemes field.render.runes) field := by
  cases wellFormed with
  | relation wellFormed => exact .relation wellFormed.written
  | @typed expr modifier isArray default valid known wellFormed =>
      have assignedEnds := endsName_assigned default
      have modifierEnds := endsName_modifiers known assignedEnds
      obtain ⟨base, typeDenotes, written⟩ := valid.written
      obtain ⟨brackets, arrayDenotes, arrayRead⟩ :=
        lexemes_brackets isArray (modifier ++ assignedText default)
      obtain ⟨used, modifiersDenote, modifiersRead⟩ :=
        lexemes_modifiers known (assignedText default)
      obtain ⟨_, read⟩ := written _ (endsName_brackets isArray modifierEnds)
      obtain ⟨few, array, spelled⟩ := suffixesOf_spec isArray modifier
      have denotes := FieldDenotes.typed typeDenotes
        (suffixesDenote_of_array arrayDenotes modifiersDenote) few (lexemes_assigned wellFormed)
      rw [← suffixesOf, array, spelled] at denotes
      rw [render_ofParts, read, arrayRead, modifiersRead]
      simpa using denotes

end Field

end EntitySchema
