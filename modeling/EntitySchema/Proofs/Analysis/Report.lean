import EntitySchema.Analysis.Rule
import EntitySchema.Proofs.OrderedMap
import Mathlib.Data.List.Basic

/-!
What rules report. A finding stands at a key that the rule has from the schema of its input, and has
the severity of the rule, so an analysis has errors exactly when one of the rules for errors finds
something.
-/

namespace EntitySchema

open Diagnostic AnalysisInput

inductive Directives.Holds (directives : Directives) : Text → Prop
  | partitionBy (given : directives.partitionBy ≠ []) : Holds directives Key.partitionBy
  | index (given : directives.indexes ≠ []) : Holds directives Key.index
  | fullText (given : directives.fullText ≠ []) : Holds directives Key.fullText
  | vector (given : directives.vectors ≠ []) : Holds directives Key.vector

inductive Schema.Mentions (schema : Schema) : Text → Prop
  | whole : Mentions schema []
  | field {key : Text} (declared : key ∈ schema.fields.keys) : Mentions schema key
  | relation {key : Text} (declared : key ∈ schema.relations.keys) : Mentions schema key
  | directive {key : Text} (held : schema.directives.Holds key) : Mentions schema key

theorem AnalysisInput.lookup?_eq_some {inputs : List AnalysisInput} {target : AnalysisInput}
    {name : Text} (found : lookup? inputs name = some target) :
    target ∈ inputs ∧ target.schema.name = name := by
  unfold lookup? at found
  split at found
  · simp at found
  · exact ⟨List.mem_of_find?_eq_some found, by simpa using List.find?_some found⟩

namespace Rule

variable {inputs : List AnalysisInput} {diagnostic : Diagnostic}

theorem mem_perInput {check : AnalysisInput → List Diagnostic} :
    diagnostic ∈ perInput check inputs ↔ ∃ input ∈ inputs, diagnostic ∈ check input :=
  List.mem_flatMap

theorem perRelation_eq_nil {check : AnalysisInput → Text → Relation → Option Diagnostic} :
    perRelation check inputs = [] ↔ ∀ input ∈ inputs, ∀ name relation,
      (name, relation) ∈ input.schema.relations.toList → check input name relation = none := by
  simp [perRelation, perInput]

theorem first_of_mem_duplicatesFrom {seen inputs : List AnalysisInput}
    {input first : AnalysisInput} (found : (input, first) ∈ duplicatesFrom seen inputs) :
    ∃ front rest, inputs = front ++ input :: rest ∧ (first ∈ seen ∨ first ∈ front) ∧
      first.schema.name = input.schema.name := by
  induction inputs generalizing seen with
  | nil => simp [duplicatesFrom] at found
  | cons head inputs ih =>
      have later (member : (input, first) ∈ duplicatesFrom (head :: seen) inputs) :
          ∃ front rest, head :: inputs = front ++ input :: rest ∧
            (first ∈ seen ∨ first ∈ front) ∧ first.schema.name = input.schema.name := by
        obtain ⟨front, rest, rfl, before, same⟩ := ih member
        refine ⟨head :: front, rest, rfl, ?_, same⟩
        rw [List.mem_cons] at before ⊢
        tauto
      rw [duplicatesFrom] at found
      split at found
      next earlier known =>
        rcases List.mem_cons.mp found with same | member
        · obtain ⟨rfl, rfl⟩ := Prod.mk.inj same
          obtain ⟨inside, name⟩ := lookup?_eq_some known
          exact ⟨[], inputs, rfl, .inl (List.mem_reverse.mp inside), name⟩
        · exact later member
      · exact later found

def ofDirectives : List Rule :=
  [unknownDirectiveField, vectorFieldType, vectorDimensions, fullTextFieldType, emptyIndex]

def Names (rule : Rule) (schema : Schema) (field : Text) : Prop :=
  schema.Mentions field ∧ (rule.name ∈ ofDirectives.map Rule.name → schema.directives.Holds field)

theorem names_of_other {rule : Rule} {schema : Schema} {field : Text}
    (other : rule.name ∉ ofDirectives.map Rule.name) (mentions : schema.Mentions field) :
    rule.Names schema field :=
  ⟨mentions, fun known => absurd known other⟩

theorem names_of_holds {rule : Rule} {schema : Schema} {field : Text}
    (holds : schema.directives.Holds field) : rule.Names schema field :=
  ⟨.directive holds, fun _ => holds⟩

theorem holds_of_mem_directiveNames {directives : Directives} {key name : Text}
    (member : (key, name) ∈ directiveNames directives) : directives.Holds key := by
  simp only [directiveNames, List.mem_append, List.mem_map, List.mem_flatMap, Prod.mk.injEq]
    at member
  rcases member with ((⟨_, given, rfl, _⟩ | ⟨_, given, _, _, rfl, _⟩) | ⟨_, given, rfl, _⟩) |
    ⟨_, given, rfl, _⟩
  · exact .partitionBy (List.ne_nil_of_mem given)
  · exact .index (List.ne_nil_of_mem given)
  · exact .fullText (List.ne_nil_of_mem given)
  · exact .vector (List.ne_nil_of_mem given)

/-- The finding stands at a key that the rule has from the schema of one of the inputs. -/
def Reports (rule : Rule) (inputs : List AnalysisInput) (diagnostic : Diagnostic) : Prop :=
  ∃ input ∈ inputs, ∃ field message,
    diagnostic = report input field rule.severity rule.name message ∧
      rule.Names input.schema field

theorem reports_of_items {rule : Rule} {α : Type} {items : AnalysisInput → List α}
    {check : AnalysisInput → α → Option Diagnostic} (key : α → Text)
    (names : ∀ input, ∀ item ∈ items input, rule.Names input.schema (key item))
    (made : ∀ input item, check input item = some diagnostic →
      ∃ message, report input (key item) rule.severity rule.name message = diagnostic)
    (found : diagnostic ∈ perInput (fun input => (items input).filterMap (check input)) inputs) :
    rule.Reports inputs diagnostic := by
  obtain ⟨input, member, inside⟩ := mem_perInput.mp found
  obtain ⟨item, known, checked⟩ := List.mem_filterMap.mp inside
  obtain ⟨message, same⟩ := made input item checked
  exact ⟨input, member, key item, message, same.symm, names input item known⟩

theorem names_relation {rule : Rule} (other : rule.name ∉ ofDirectives.map Rule.name)
    (input : AnalysisInput) :
    ∀ item ∈ input.schema.relations.toList, rule.Names input.schema item.1 := by
  intro item member
  apply names_of_other other (.relation _)
  rw [OrderedMap.keys_eq]
  exact List.mem_map_of_mem member

theorem names_field {rule : Rule} (other : rule.name ∉ ofDirectives.map Rule.name)
    (input : AnalysisInput) :
    ∀ item ∈ input.schema.fields.toList, rule.Names input.schema item.1 := by
  intro item member
  apply names_of_other other (.field _)
  rw [OrderedMap.keys_eq]
  exact List.mem_map_of_mem member

theorem duplicateSchema_reports (found : diagnostic ∈ duplicateSchema.run inputs) :
    duplicateSchema.Reports inputs diagnostic := by
  obtain ⟨⟨input, first⟩, pair, rfl⟩ := List.mem_map.mp found
  obtain ⟨front, rest, rfl, _⟩ := first_of_mem_duplicatesFrom pair
  exact ⟨input, by simp, _, _, rfl, names_of_other (by decide) .whole⟩

theorem unknownRelationTarget_reports (found : diagnostic ∈ unknownRelationTarget.run inputs) :
    unknownRelationTarget.Reports inputs diagnostic := by
  refine reports_of_items Prod.fst (names_relation (by decide)) ?_ found
  intro input item made
  dsimp only at made
  split at made
  · contradiction
  · exact ⟨_, Option.some.inj made⟩

theorem inverseMismatch_reports (found : diagnostic ∈ inverseMismatch.run inputs) :
    inverseMismatch.Reports inputs diagnostic := by
  refine reports_of_items Prod.fst (names_relation (by decide)) ?_ found
  intro input item made
  dsimp only at made
  split at made
  · split at made
    · contradiction
    · obtain ⟨message, _, same⟩ := Option.map_eq_some_iff.mp made
      exact ⟨message, same⟩
  · contradiction

theorem unknownDirectiveField_reports (found : diagnostic ∈ unknownDirectiveField.run inputs) :
    unknownDirectiveField.Reports inputs diagnostic := by
  refine reports_of_items Prod.fst (fun input item member =>
    names_of_holds (holds_of_mem_directiveNames member)) ?_ found
  intro input item made
  dsimp only at made
  split at made
  · contradiction
  · exact ⟨_, Option.some.inj made⟩

theorem unnamedSchema_reports (found : diagnostic ∈ unnamedSchema.run inputs) :
    unnamedSchema.Reports inputs diagnostic := by
  obtain ⟨input, member, inside⟩ := mem_perInput.mp found
  split at inside
  · obtain rfl := List.mem_singleton.mp inside
    exact ⟨input, member, _, _, rfl, names_of_other (by decide) .whole⟩
  · contradiction

theorem unmatchedBackwardRelation_reports
    (found : diagnostic ∈ unmatchedBackwardRelation.run inputs) :
    unmatchedBackwardRelation.Reports inputs diagnostic := by
  refine reports_of_items Prod.fst (names_relation (by decide)) ?_ found
  intro input item made
  dsimp only at made
  split at made
  · contradiction
  · split at made
    · contradiction
    · split at made
      · contradiction
      · exact ⟨_, Option.some.inj made⟩

theorem conflictingModifiers_reports (found : diagnostic ∈ conflictingModifiers.run inputs) :
    conflictingModifiers.Reports inputs diagnostic := by
  refine reports_of_items Prod.fst (names_field (by decide)) ?_ found
  intro input item made
  dsimp only at made
  split at made
  · exact ⟨_, Option.some.inj made⟩
  · contradiction

theorem vectorFieldType_reports (found : diagnostic ∈ vectorFieldType.run inputs) :
    vectorFieldType.Reports inputs diagnostic := by
  refine reports_of_items (fun _ => Key.vector) (fun input item member =>
    names_of_holds (.vector (List.ne_nil_of_mem member))) ?_ found
  intro input item made
  split at made
  · contradiction
  · split at made
    · contradiction
    · exact ⟨_, Option.some.inj made⟩

theorem vectorDimensions_reports (found : diagnostic ∈ vectorDimensions.run inputs) :
    vectorDimensions.Reports inputs diagnostic := by
  refine reports_of_items (fun _ => Key.vector) (fun input item member =>
    names_of_holds (.vector (List.ne_nil_of_mem member))) ?_ found
  intro input item made
  split at made
  · exact ⟨_, Option.some.inj made⟩
  · contradiction

theorem fullTextFieldType_reports (found : diagnostic ∈ fullTextFieldType.run inputs) :
    fullTextFieldType.Reports inputs diagnostic := by
  refine reports_of_items (fun _ => Key.fullText) (fun input item member =>
    names_of_holds (.fullText (List.ne_nil_of_mem member))) ?_ found
  intro input item made
  split at made
  · contradiction
  · split at made
    · contradiction
    · exact ⟨_, Option.some.inj made⟩

theorem emptyIndex_reports (found : diagnostic ∈ emptyIndex.run inputs) :
    emptyIndex.Reports inputs diagnostic := by
  refine reports_of_items (fun _ => Key.index) (fun input item member => ?_) ?_ found
  · exact names_of_holds (.index (List.ne_nil_of_mem (List.fst_mem_of_mem_zipIdx member)))
  · intro input item made
    dsimp only at made
    split at made
    · exact ⟨_, Option.some.inj made⟩
    · contradiction

theorem reports_of_mem {rule : Rule} (known : rule ∈ all) (found : diagnostic ∈ rule.run inputs) :
    rule.Reports inputs diagnostic := by
  simp only [all, List.mem_cons, List.not_mem_nil, or_false] at known
  rcases known with rfl | rfl | rfl | rfl | rfl | rfl | rfl | rfl | rfl | rfl | rfl
  · exact duplicateSchema_reports found
  · exact unknownRelationTarget_reports found
  · exact inverseMismatch_reports found
  · exact unknownDirectiveField_reports found
  · exact unnamedSchema_reports found
  · exact unmatchedBackwardRelation_reports found
  · exact conflictingModifiers_reports found
  · exact vectorFieldType_reports found
  · exact vectorDimensions_reports found
  · exact fullTextFieldType_reports found
  · exact emptyIndex_reports found

theorem exists_report {rule : Rule} (known : rule ∈ all) (found : diagnostic ∈ rule.run inputs) :
    ∃ input ∈ inputs, ∃ field message,
      diagnostic = report input field rule.severity rule.name message := by
  obtain ⟨input, member, field, message, same, _⟩ := reports_of_mem known found
  exact ⟨input, member, field, message, same⟩

theorem severity_of_mem {rule : Rule} (known : rule ∈ all) (found : diagnostic ∈ rule.run inputs) :
    diagnostic.severity = rule.severity := by
  obtain ⟨input, _, field, message, rfl⟩ := exists_report known found
  rfl

theorem code_of_mem {rule : Rule} (known : rule ∈ all) (found : diagnostic ∈ rule.run inputs) :
    diagnostic.code = rule.name := by
  obtain ⟨input, _, field, message, rfl⟩ := exists_report known found
  rfl

end Rule

theorem mem_analyze {inputs : List AnalysisInput} {diagnostic : Diagnostic} :
    diagnostic ∈ analyze inputs ↔ ∃ rule ∈ Rule.all, diagnostic ∈ rule.run inputs := by
  simp [analyze, analyzeWith]

theorem hasErrors_analyze_eq_false {inputs : List AnalysisInput} :
    hasErrors (analyze inputs) = false ↔
      ∀ rule ∈ Rule.all, rule.severity = .error → rule.run inputs = [] := by
  simp only [hasErrors, List.any_eq_false, decide_eq_true_eq]
  constructor
  · intro none rule known isError
    rw [List.eq_nil_iff_forall_not_mem]
    intro diagnostic found
    exact none diagnostic (mem_analyze.mpr ⟨rule, known, found⟩)
      ((Rule.severity_of_mem known found).trans isError)
  · intro silent diagnostic found isError
    obtain ⟨rule, known, found⟩ := mem_analyze.mp found
    have isErrorRule := (Rule.severity_of_mem known found).symm.trans isError
    simp [silent rule known isErrorRule] at found

end EntitySchema
