import EntitySchema.Proofs.Analysis.Report
import EntitySchema.Proofs.Schema.Assembled

/-!
Referential integrity of a set of schemas. What the rules for errors look for, one rule at a time,
is together one condition on the whole set: names are not shared, targets and inverses are
declared, and directives mention what their schema declares.
-/

namespace EntitySchema

open Diagnostic AnalysisInput

namespace Directives

def Mentions (directives : Directives) (name : Text) : Prop :=
  name ∈ directives.partitionBy ∨ (∃ index ∈ directives.indexes, name ∈ index.fields) ∨
    name ∈ directives.fullText ∨ ∃ vector ∈ directives.vectors, vector.field = name

end Directives

def AnalysisInput.Apart (left right : AnalysisInput) : Prop :=
  left.schema.name = right.schema.name → left.schema.name = []

/-- The schema holds the other end of the relation, which leads back to the schema `source`. -/
def Schema.HoldsInverse (schema : Schema) (relation : Relation) (source : Text) : Prop :=
  relation.inverse ∉ schema.fields.keys ∧
    ∃ back, schema.relations.get? relation.inverse = some back ∧ back.target = source

/-- Everything that the schemas of a set refer to is there, and there only once. -/
structure ReferencesResolve (inputs : List AnalysisInput) : Prop where
  apart : inputs.Pairwise Apart
  targets : ∀ input ∈ inputs, ∀ name relation,
    (name, relation) ∈ input.schema.relations.toList →
      ∃ target ∈ inputs, target.schema.name = relation.target
  inverses : ∀ input ∈ inputs, ∀ name relation,
    (name, relation) ∈ input.schema.relations.toList → relation.inverse ≠ [] →
      ∃ target ∈ inputs, target.schema.name = relation.target ∧
        target.schema.HoldsInverse relation input.schema.name
  mentioned : ∀ input ∈ inputs, ∀ name, input.schema.directives.Mentions name →
    name ∈ input.schema.fields.keys ∨ name ∈ input.schema.relations.keys

instance : Std.Symm Apart where
  symm _ _ apart same := same ▸ apart same.symm

namespace AnalysisInput

variable {inputs : List AnalysisInput} {target : AnalysisInput} {name : Text}

theorem lookup?_eq_none (named : name ≠ []) :
    lookup? inputs name = none ↔ ∀ input ∈ inputs, input.schema.name ≠ name := by
  simp [lookup?, named]

theorem lookup?_of_mem (apart : inputs.Pairwise Apart) (member : target ∈ inputs)
    (named : target.schema.name ≠ []) : lookup? inputs target.schema.name = some target := by
  cases found : lookup? inputs target.schema.name with
  | none => exact absurd rfl ((lookup?_eq_none named).mp found target member)
  | some first =>
      obtain ⟨inside, same⟩ := lookup?_eq_some found
      by_contra different
      have other : first ≠ target := fun equal => different (congrArg some equal)
      exact named (same ▸ apart.forall inside member other same)

end AnalysisInput

namespace Rule

variable {inputs : List AnalysisInput}

theorem lookup?_reverse_eq_none (seen : List AnalysisInput) (input : AnalysisInput) :
    lookup? seen.reverse input.schema.name = none ↔ ∀ earlier ∈ seen, Apart earlier input := by
  by_cases named : input.schema.name = []
  · simp [lookup?, Apart, named]
  · rw [lookup?_eq_none named]
    constructor
    · intro fresh earlier member same
      exact absurd same (fresh earlier (List.mem_reverse.mpr member))
    · intro apart earlier member same
      exact named (same ▸ apart earlier (List.mem_reverse.mp member) same)

theorem duplicatesFrom_eq_nil {seen : List AnalysisInput} :
    duplicatesFrom seen inputs = [] ↔
      inputs.Pairwise Apart ∧ ∀ input ∈ inputs, ∀ earlier ∈ seen, Apart earlier input := by
  induction inputs generalizing seen with
  | nil => simp [duplicatesFrom]
  | cons input inputs ih =>
      have fresh := lookup?_reverse_eq_none seen input
      rw [duplicatesFrom]
      cases found : lookup? seen.reverse input.schema.name with
      | some first =>
          simp only [found, reduceCtorEq, false_iff] at fresh
          simp [fresh]
      | none =>
          simp only [found, true_iff] at fresh
          simp only [ih, List.pairwise_cons, List.forall_mem_cons]
          constructor
          · rintro ⟨later, apart⟩
            exact ⟨⟨fun other member => (apart other member).1, later⟩, fresh,
              fun other member => (apart other member).2⟩
          · rintro ⟨⟨first, later⟩, _, others⟩
            exact ⟨later, fun other member => ⟨first other member, others other member⟩⟩

theorem duplicateSchema_run_eq_nil : duplicateSchema.run inputs = [] ↔ inputs.Pairwise Apart := by
  simp [duplicateSchema, duplicatesFrom_eq_nil]

theorem unknownRelationTarget_run_eq_nil :
    unknownRelationTarget.run inputs = [] ↔ ∀ input ∈ inputs, ∀ name relation,
      (name, relation) ∈ input.schema.relations.toList →
        ∃ target, lookup? inputs relation.target = some target := by
  simp only [unknownRelationTarget, perRelation_eq_nil]
  refine forall₅_congr fun input _ name relation _ => ?_
  cases lookup? inputs relation.target <;> simp

theorem inverseProblem?_eq_none {source target : Schema} {relation : Relation} :
    inverseProblem? source relation target = none ↔ target.HoldsInverse relation source.name := by
  simp only [inverseProblem?, Schema.HoldsInverse, ← OrderedMap.contains_iff, Bool.not_eq_true]
  cases target.fields.contains relation.inverse with
  | true => simp
  | false => cases target.relations.get? relation.inverse <;> simp

theorem inverseMismatch_run_eq_nil :
    inverseMismatch.run inputs = [] ↔ ∀ input ∈ inputs, ∀ name relation,
      (name, relation) ∈ input.schema.relations.toList → relation.inverse ≠ [] →
        ∀ target, lookup? inputs relation.target = some target →
          target.schema.HoldsInverse relation input.schema.name := by
  simp only [inverseMismatch, perRelation_eq_nil]
  refine forall₅_congr fun input _ name relation _ => ?_
  by_cases inverse : relation.inverse = []
  · simp [Relation.hasInverse, inverse]
  · cases lookup? inputs relation.target <;>
      simp [Relation.hasInverse, inverse, inverseProblem?_eq_none]

theorem mem_directiveNames {directives : Directives} {name : Text} :
    (∃ key, (key, name) ∈ directiveNames directives) ↔ directives.Mentions name := by
  simp [directiveNames, Directives.Mentions, exists_or]

theorem unknownDirectiveField_run_eq_nil :
    unknownDirectiveField.run inputs = [] ↔ ∀ input ∈ inputs, ∀ name,
      input.schema.directives.Mentions name →
        name ∈ input.schema.fields.keys ∨ name ∈ input.schema.relations.keys := by
  simp only [unknownDirectiveField, perInput, List.flatMap_eq_nil_iff, List.filterMap_eq_nil_iff]
  refine forall₂_congr fun input _ => ?_
  simp only [← mem_directiveNames, ← OrderedMap.contains_iff, ← Bool.or_eq_true]
  constructor
  · rintro silent name ⟨key, member⟩
    have quiet := silent (key, name) member
    by_contra missing
    simp [declares, missing] at quiet
  · rintro declared ⟨key, name⟩ member
    have known := declared name ⟨key, member⟩
    simp [declares, known]

theorem errorRules_run_eq_nil :
    (∀ rule ∈ all, rule.severity = .error → rule.run inputs = []) ↔
      duplicateSchema.run inputs = [] ∧ unknownRelationTarget.run inputs = [] ∧
        inverseMismatch.run inputs = [] ∧ unknownDirectiveField.run inputs = [] := by
  simp only [all, List.forall_mem_cons, List.not_mem_nil, false_implies, implies_true, and_true]
  simp [duplicateSchema, unknownRelationTarget, inverseMismatch, unknownDirectiveField,
    unnamedSchema, unmatchedBackwardRelation, conflictingModifiers, vectorFieldType,
    vectorDimensions, fullTextFieldType, emptyIndex]

end Rule

/--
The analysis of assembled schemas has no error exactly when all their references resolve. A target
is never empty, so an input without a name is nobody's target.
-/
theorem hasErrors_eq_false_iff_referencesResolve (inputs : List AnalysisInput)
    (assembled : ∀ input ∈ inputs, ∃ now record, Schema.ofRecord now record = .ok input.schema) :
    hasErrors (analyze inputs) = false ↔ ReferencesResolve inputs := by
  have named : ∀ input ∈ inputs, ∀ name relation,
      (name, relation) ∈ input.schema.relations.toList → relation.target ≠ [] := by
    intro input member name relation declared
    obtain ⟨now, record, accepted⟩ := assembled input member
    exact ((Schema.assembled_of_ofRecord accepted).relation declared).2.target.ne_nil
  rw [hasErrors_analyze_eq_false, Rule.errorRules_run_eq_nil, Rule.duplicateSchema_run_eq_nil,
    Rule.unknownRelationTarget_run_eq_nil, Rule.inverseMismatch_run_eq_nil,
    Rule.unknownDirectiveField_run_eq_nil]
  constructor
  · rintro ⟨apart, known, inverses, mentioned⟩
    refine ⟨apart, ?_, ?_, mentioned⟩
    · intro input member name relation declared
      obtain ⟨target, found⟩ := known input member name relation declared
      exact ⟨target, lookup?_eq_some found⟩
    · intro input member name relation declared hasInverse
      obtain ⟨target, found⟩ := known input member name relation declared
      obtain ⟨inside, same⟩ := lookup?_eq_some found
      exact ⟨target, inside, same,
        inverses input member name relation declared hasInverse target found⟩
  · rintro ⟨apart, targets, inverses, mentioned⟩
    refine ⟨apart, ?_, ?_, mentioned⟩
    · intro input member name relation declared
      obtain ⟨target, inside, same⟩ := targets input member name relation declared
      have nonempty := named input member name relation declared
      exact ⟨target, same ▸ lookup?_of_mem apart inside (same ▸ nonempty)⟩
    · intro input member name relation declared hasInverse target found
      obtain ⟨holder, inside, same, holds⟩ :=
        inverses input member name relation declared hasInverse
      have nonempty := named input member name relation declared
      -- The first input with the name is the one that holds the inverse, as no other has it.
      have first := lookup?_of_mem apart inside (same ▸ nonempty)
      rw [same, found] at first
      exact Option.some.inj first ▸ holds

def blogRecords : List Record :=
  [.ofList [(Key.type, .string (utf8 "Post")), (utf8 "title", .string (utf8 "string!")),
      (utf8 "author", .string (utf8 "-> User.posts")), (Key.fullText, .strings [utf8 "title"])],
    .ofList [(Key.type, .string (utf8 "User")), (utf8 "posts", .string (utf8 "<- Post.author[]"))]]

def blogInputs : List AnalysisInput :=
  blogRecords.filterMap fun record =>
    (Schema.ofRecord Timestamp.zero record).toOption.map fun schema =>
      { path := utf8 "blog.yaml", schema := schema, record := record }

theorem referencesResolve_blog : blogInputs.length = 2 ∧ ReferencesResolve blogInputs := by
  have assembled : ∀ input ∈ blogInputs, ∃ now record,
      Schema.ofRecord now record = .ok input.schema := by
    intro input member
    obtain ⟨record, _, made⟩ := List.mem_filterMap.mp member
    cases accepted : Schema.ofRecord Timestamp.zero record with
    | error => simp [accepted, Except.toOption] at made
    | ok schema =>
        simp only [accepted, Except.toOption, Option.map_some, Option.some.injEq] at made
        exact ⟨Timestamp.zero, record, made ▸ accepted⟩
  have silent : hasErrors (analyze blogInputs) = false := by decide +kernel
  exact ⟨by decide +kernel,
    (hasErrors_eq_false_iff_referencesResolve blogInputs assembled).mp silent⟩

end EntitySchema
