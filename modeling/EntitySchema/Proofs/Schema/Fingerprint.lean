import EntitySchema.Proofs.Schema.Assembled
import EntitySchema.Schema.Render

/-!
The text behind a fingerprint tells all definitions. Every definition is written on one line, so
with the keys known the lines can be cut apart again, whatever the keys are and whatever the
directives write behind them.
-/

namespace EntitySchema

open Lexer

namespace Text

def IsLine (text : Text) : Prop := 0x0A ∉ text

@[simp]
theorem isLine_append (left right : Text) :
    IsLine (left ++ right) ↔ left.IsLine ∧ right.IsLine := by
  simp [IsLine]

@[simp]
theorem isLine_cons (byte : Byte) (text : Text) :
    IsLine (byte :: text) ↔ byte ≠ 0x0A ∧ text.IsLine := by
  simp [IsLine, eq_comm]

@[simp]
theorem isLine_nil : IsLine [] := by
  simp [IsLine]

theorem isLine_of_all {text : Text} (all : (text.all fun byte => decide (byte ≠ 0x0A)) = true) :
    text.IsLine := by
  intro member
  exact forall_mem_of_all all 0x0A member rfl

theorem IsDigits.isLine {text : Text} (digits : text.IsDigits) : text.IsLine := by
  intro member
  exact absurd (digits.2 0x0A member) (by decide)

theorem isLine_ofInt (number : Int) : (ofInt number).IsLine := by
  have digits := (isDigits_ofNat number.natAbs).isLine
  unfold ofInt
  split <;> simp [digits]

theorem ofInt_injective : Function.Injective ofInt := by
  intro left right same
  have leftFirst := (isDigits_ofNat left.natAbs).no_sign.1
  have rightFirst := (isDigits_ofNat right.natAbs).no_sign.1
  have value (number : Nat) := digitsValue_ofNat number
  unfold ofInt at same
  split at same <;> split at same
  · have size := congrArg digitsValue (List.cons.inj same).2
    rw [value, value] at size
    omega
  · simp [← same] at rightFirst
  · simp [same] at leftFirst
  · have size := congrArg digitsValue same
    rw [value, value] at size
    omega

theorem IsLine.append_inj {left right leftRest rightRest : Text} (leftLine : left.IsLine)
    (rightLine : right.IsLine) (same : left ++ 0x0A :: leftRest = right ++ 0x0A :: rightRest) :
    left = right ∧ leftRest = rightRest := by
  induction left generalizing right with
  | nil =>
      cases right with
      | nil => simpa using same
      | cons byte right => simp_all
  | cons byte left ih =>
      cases right with
      | nil => simp_all
      | cons other right =>
          simp only [List.cons_append, List.cons.injEq, isLine_cons] at same leftLine rightLine
          obtain ⟨front, back⟩ := ih leftLine.2 rightLine.2 same.2
          exact ⟨by rw [same.1, front], back⟩

end Text

theorem IsName.isLine {text : Text} (isName : IsName text) : text.IsLine := by
  obtain ⟨first, rest, shape, starts, continued⟩ := isName.runes_shape
  intro member
  rw [← Text.spell_runes text] at member
  obtain ⟨rune, inside, bytes⟩ := List.mem_flatMap.mp member
  have isFeed : rune = Rune.ofByte 0x0A := by
    obtain ⟨byte, _, rfl⟩ | ⟨_, _, high⟩ := (Text.isRead_of_mem_runes inside).cases
    · rw [show (Rune.ofByte byte).bytes = [byte] from rfl, List.mem_singleton] at bytes
      rw [bytes]
    · exact absurd (high _ bytes) (by decide)
  subst isFeed
  rw [shape, List.mem_cons] at inside
  rcases inside with rfl | inside
  · exact absurd starts (by decide)
  · exact absurd (continued _ inside) (by decide)

theorem Decimal.IsNumeral.isLine {text : Text} (numeral : IsNumeral text) : text.IsLine := by
  have unsigned {text : Text} (isUnsigned : IsUnsigned text) : text.IsLine := by
    cases isUnsigned with
    | whole digits => exact digits.isLine
    | fraction wholeDigits fractionDigits => simp [wholeDigits.isLine, fractionDigits.isLine]
  cases numeral with
  | positive isUnsigned => exact unsigned isUnsigned
  | negative isUnsigned => simp [unsigned isUnsigned]

namespace DefaultValue

theorem isLine_quoteString (text : Text) : (quoteString text).IsLine := by
  have body : Text.IsLine (text.flatMap quoteByte) := by
    intro member
    obtain ⟨byte, _, written⟩ := List.mem_flatMap.mp member
    obtain ⟨rfl | rfl, same⟩ | ⟨_, same⟩ | ⟨_, same⟩ | ⟨_, _, same⟩ := quoteByte_cases byte
    · simp [same] at written
    · simp [same] at written
    · simp [same] at written
    · simp [same] at written
    · rw [same, List.mem_singleton] at written
      subst written
      exact absurd same (by decide)
  simp only [quoteString, Text.isLine_append]
  exact ⟨⟨Text.isLine_of_all (by decide), body⟩, Text.isLine_of_all (by decide)⟩

theorem WellFormed.isLine_render {value : DefaultValue} (wellFormed : value.WellFormed) :
    value.render.IsLine := by
  cases value with
  | boolean value => cases value <;> exact Text.isLine_of_all (by decide)
  | number value =>
      cases value with
      | finite => exact (Decimal.isNumeral_render _).isLine
      | infinite => exact wellFormed.elim
      | nan => exact wellFormed.elim
  | string text => exact isLine_quoteString text
  | function name =>
      have isName : IsName name := wellFormed
      simp only [render, Text.isLine_append]
      exact ⟨isName.isLine, Text.isLine_of_all (by decide)⟩
  | unknown => exact wellFormed.elim
  | _ => exact Text.isLine_of_all (by decide)

end DefaultValue

namespace TypeExpr

theorem isLine_parametric {base rest : Text} (isName : IsName base) (line : rest.IsLine)
    (precision scale length : Option Int) :
    ((parametric base precision scale length).renderBefore rest).IsLine := by
  have parameters : Text.IsLine (Text.join [0x2C] (parameterTexts precision scale length)) := by
    cases precision <;> cases scale <;> cases length <;>
      simp [parameterTexts, Text.join, Text.isLine_ofInt]
  simp [renderBefore_parametric, isName.isLine, line, parameters]

theorem Valid.isLine_renderBefore {expr : TypeExpr} (valid : expr.Valid) {rest : Text}
    (line : rest.IsLine) : (expr.renderBefore rest).IsLine := by
  have isName := valid.names.1
  induction valid generalizing rest with
  | primitive member =>
      rw [renderBefore, Text.isLine_append]
      exact ⟨isName.isLine, line⟩
  | decimal => exact isLine_parametric isName line _ _ _
  | scaled => exact isLine_parametric isName line _ _ _
  | sized => exact isLine_parametric isName line _ _ _
  | map keyValid valueValid keyIh valueIh =>
      simp only [renderBefore_generic, renderAllBefore, Text.isLine_append, Text.isLine_cons]
      refine ⟨isName.isLine, by decide, keyIh ?_ keyValid.names.1⟩
      rw [Text.isLine_append]
      exact ⟨Text.isLine_of_all (by decide), valueIh (by simp [line]) valueValid.names.1⟩
  | list itemValid ih =>
      simp only [renderBefore_generic, renderAllBefore, Text.isLine_append, Text.isLine_cons]
      exact ⟨isName.isLine, by decide, ih (by simp [line]) itemValid.names.1⟩
  | named member argument =>
      rw [renderBefore_generic, renderAllBefore, renderBefore]
      simp only [Text.isLine_append, Text.isLine_cons]
      exact ⟨isName.isLine, by decide, argument.isLine, by decide, line⟩

end TypeExpr

theorem Relation.WellFormed.isLine_render {relation : Relation} (wellFormed : relation.WellFormed) :
    relation.render.IsLine := by
  have arrows : ∀ operator ∈ Operator.all,
      (operator.all fun byte => decide (byte ≠ 0x0A)) = true := by decide
  have arrow := Text.isLine_of_all (arrows _ wellFormed.operator)
  have inverse : relation.inverse.IsLine := by
    rcases wellFormed.inverse with empty | isName
    · simp [empty]
    · exact isName.isLine
  simp only [render, Text.isLine_append]
  refine ⟨⟨⟨⟨⟨arrow, Text.isLine_of_all (by decide)⟩, wellFormed.target.isLine⟩, ?_⟩, ?_⟩, ?_⟩
  · split
    · exact (Text.isLine_append _ _).mpr ⟨Text.isLine_of_all (by decide), inverse⟩
    · exact Text.isLine_nil
  · split <;> exact Text.isLine_of_all (by decide)
  · split <;> exact Text.isLine_of_all (by decide)

theorem Field.WellFormed.isLine_render {field : Field} (wellFormed : field.WellFormed) :
    field.render.IsLine := by
  cases wellFormed with
  | relation wellFormed => exact wellFormed.isLine_render
  | @typed expr modifier isArray default valid known wellFormed =>
      have modifiers : modifier.IsLine := fun member => absurd (known 0x0A member) (by decide)
      have assigned : Text.IsLine (assignedText default) := by
        cases default with
        | none => exact Text.isLine_nil
        | some value => simp [assignedText, (wellFormed value rfl).isLine_render]
      rw [render_ofParts]
      apply valid.isLine_renderBefore
      simp only [Text.isLine_append]
      refine ⟨?_, modifiers, assigned⟩
      split <;> exact Text.isLine_of_all (by decide)

namespace Schema

theorem entries_of_lines {α : Type} {render : α → Text} {left right : List (Text × α)}
    (leftLines : ∀ entry ∈ left, (render entry.2).IsLine)
    (rightLines : ∀ entry ∈ right, (render entry.2).IsLine)
    (told : ∀ first ∈ left, ∀ second ∈ right, render first.2 = render second.2 →
      first.2 = second.2)
    (keys : left.map Prod.fst = right.map Prod.fst) {leftRest rightRest : Text}
    (same : (left.map fun entry => (entry.1, render entry.2)).flatMap renderLine ++ leftRest =
      (right.map fun entry => (entry.1, render entry.2)).flatMap renderLine ++ rightRest) :
    left = right ∧ leftRest = rightRest := by
  induction left generalizing right with
  | nil =>
      obtain rfl := List.map_eq_nil_iff.mp keys.symm
      exact ⟨rfl, by simpa using same⟩
  | cons first left ih =>
      obtain ⟨second, right, rfl⟩ : ∃ second rest, right = second :: rest := by
        cases right with
        | nil => simp at keys
        | cons second right => exact ⟨second, right, rfl⟩
      obtain ⟨key, value⟩ := first
      obtain ⟨otherKey, other⟩ := second
      simp only [List.map_cons, List.cons.injEq, List.forall_mem_cons] at keys leftLines rightLines
      obtain ⟨rfl, keys⟩ := keys
      simp only [List.map_cons, List.flatMap_cons, renderLine, List.append_assoc,
        List.append_cancel_left_eq, show utf8 "\n" = [0x0A] from rfl, List.singleton_append] at same
      -- The key may hold line feeds, but it is the same on both sides and is gone by now.
      obtain ⟨written, behind⟩ := leftLines.1.append_inj rightLines.1 same
      have equal : value = other := told (key, value) (by simp) (key, other) (by simp) written
      obtain ⟨entries, rest⟩ := ih leftLines.2 rightLines.2
        (fun first member second inside => told first (by simp [member]) second (by simp [inside]))
        keys behind
      exact ⟨by rw [equal, entries], rest⟩

/-- The schema of some record, of whatever version it has become. -/
def IsRead (schema : Schema) : Prop :=
  ∃ now record version, ofRecord now record = .ok { schema with version := version }

theorem IsRead.field {schema : Schema} (isRead : schema.IsRead) {entry : Text × Field}
    (member : entry ∈ schema.fields.toList) : entry.2.WellFormed := by
  obtain ⟨now, record, version, accepted⟩ := isRead
  exact ((assembled_of_ofRecord accepted).field member).2.1

theorem IsRead.relation {schema : Schema} (isRead : schema.IsRead) {entry : Text × Relation}
    (member : entry ∈ schema.relations.toList) : entry.2.WellFormed := by
  obtain ⟨now, record, version, accepted⟩ := isRead
  exact ((assembled_of_ofRecord accepted).relation member).2

/--
Under the same name and the same keys, schemas with the same text behind their fingerprints have
the same version and the same definitions.
-/
theorem definitions_of_fingerprintText {left right : Schema} (leftRead : left.IsRead)
    (rightRead : right.IsRead) (name : left.name = right.name)
    (fieldKeys : left.fields.keys = right.fields.keys)
    (relationKeys : left.relations.keys = right.relations.keys)
    (same : left.fingerprintText = right.fingerprintText) :
    left.version = right.version ∧ left.fields.toList = right.fields.toList ∧
      left.relations.toList = right.relations.toList := by
  simp only [fingerprintText, render, lines, name, List.flatMap_append, List.append_assoc,
    show utf8 "\n" = [0x0A] from rfl, List.singleton_append] at same
  obtain ⟨version, same⟩ :=
    (Text.isLine_ofInt left.version).append_inj (Text.isLine_ofInt right.version) same
  have same := List.append_cancel_left same
  rw [OrderedMap.keys_eq, OrderedMap.keys_eq] at fieldKeys relationKeys
  obtain ⟨fields, same⟩ := entries_of_lines
    (fun _ member => (leftRead.field member).isLine_render)
    (fun _ member => (rightRead.field member).isLine_render)
    (fun _ member _ inside => (leftRead.field member).eq_of_render (rightRead.field inside))
    fieldKeys same
  obtain ⟨relations, _⟩ := entries_of_lines
    (fun _ member => (leftRead.relation member).isLine_render)
    (fun _ member => (rightRead.relation member).isLine_render)
    (fun _ member _ inside => (leftRead.relation member).eq_of_render (rightRead.relation inside))
    relationKeys same
  exact ⟨Text.ofInt_injective version, fields, relations⟩

def noteRecord (searched : List Text) : Record := OrderedMap.ofList
  [(Key.type, .string (utf8 "Note")), (utf8 "title", .string (utf8 "varchar(40)! = \"a\\nb\"")),
    (utf8 "a\n: b", .string (utf8 "-> User.notes[]")), (Key.fullText, .strings searched)]

theorem definitions_of_fingerprintText_note :
    ∃ left right, ofRecord Timestamp.zero (noteRecord [utf8 "a", utf8 "b"]) = .ok left ∧
      ofRecord Timestamp.zero (noteRecord [utf8 "a, b"]) = .ok right ∧
      left.fingerprintText = right.fingerprintText ∧ left.version = right.version ∧
      left.fields.toList = right.fields.toList ∧
      left.relations.toList = right.relations.toList := by
  -- A name with a comma makes the same text of different directives.
  have facts : (match ofRecord Timestamp.zero (noteRecord [utf8 "a", utf8 "b"]),
      ofRecord Timestamp.zero (noteRecord [utf8 "a, b"]) with
    | .ok left, .ok right => decide (left.name = right.name ∧ left.fields.keys = right.fields.keys ∧
        left.relations.keys = right.relations.keys ∧ left.fingerprintText = right.fingerprintText)
    | _, _ => false) = true := by decide +kernel
  cases leftRead : ofRecord Timestamp.zero (noteRecord [utf8 "a", utf8 "b"]) with
  | error => simp [leftRead] at facts
  | ok left =>
      cases rightRead : ofRecord Timestamp.zero (noteRecord [utf8 "a, b"]) with
      | error => simp [leftRead, rightRead] at facts
      | ok right =>
          rw [leftRead, rightRead] at facts
          obtain ⟨name, fieldKeys, relationKeys, same⟩ := of_decide_eq_true facts
          exact ⟨left, right, rfl, rfl, same, definitions_of_fingerprintText
            ⟨_, _, _, leftRead⟩ ⟨_, _, _, rightRead⟩ name fieldKeys relationKeys same⟩

end Schema

end EntitySchema
