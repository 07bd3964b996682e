import EntitySchema.Analysis.Rule
import EntitySchema.Proofs.Checked.Parse
import EntitySchema.Proofs.Schema.Assembled

/-!
Schemas read from records, and the rules that look at them. A rule takes the argument of a list
type without a look at their number, which the reading of the type has settled.
-/

namespace EntitySchema.Checked

variable {ε : Type}

section Assembly

open Schema

def add (assembly : Assembly) (declaration : Declaration) : Checked ParseError Assembly :=
  let key := declaration.name
  if assembly.seen.contains key then refuse { cause := .repeatedDeclaration, field := key }
  else
    let assembly := { assembly with seen := key :: assembly.seen }
    match declaration with
    | .directive name value =>
      .ok { assembly with directives := assembly.directives.set name value }
    | .relation name expression => do
      let relation ← mapError (fun error => error.withField name) (parseRelation expression)
      .ok { assembly with relations := assembly.relations.set name relation }
    | .field name expression => do
      let field ← mapError (fun error => error.withField name) (parseField expression)
      .ok { assembly with fields := assembly.fields.set name field }

def addAll (assembly : Assembly) : List Declaration → Checked ParseError Assembly
  | [] => .ok assembly
  | declaration :: declarations => do
    let next ← add assembly declaration
    addAll next declarations

def parseSchema (now : Timestamp) (record : Record) : Checked ParseError Schema := do
  let (name, declarations) ← ofExcept (Declaration.classify record)
  let assembly ← addAll {} declarations
  .ok { name := name, fields := assembly.fields, relations := assembly.relations,
        directives := Directives.ofRecord assembly.directives, createdAt := now,
        updatedAt := now }

theorem add_eq (assembly : Assembly) (declaration : Declaration) :
    add assembly declaration = ofExcept (assembly.add declaration) := by
  rw [add, Assembly.add, ofExcept_ite]
  congr 1
  cases declaration with
  | directive name value => rfl
  | relation name expression =>
      dsimp only
      rw [parseRelation_eq]
      cases Relation.parse expression <;> rfl
  | field name expression =>
      dsimp only
      rw [parseField_eq]
      cases Field.parse expression <;> rfl

theorem addAll_eq (assembly : Assembly) (declarations : List Declaration) :
    addAll assembly declarations = ofExcept (assembly.addAll declarations) := by
  induction declarations generalizing assembly with
  | nil => rfl
  | cons declaration declarations ih =>
      rw [addAll, Assembly.addAll, add_eq]
      cases assembly.add declaration with
      | error error => rfl
      | ok next => exact ih next

theorem parseSchema_eq (now : Timestamp) (record : Record) :
    parseSchema now record = ofExcept (ofRecord now record) := by
  rw [parseSchema, ofRecord]
  cases Declaration.classify record with
  | error error => rfl
  | ok found =>
      obtain ⟨name, declarations⟩ := found
      rw [ofExcept_ok, ok_bind]
      dsimp only
      rw [addAll_eq, ofDeclarations]
      cases Assembly.addAll {} declarations <;> rfl

end Assembly

section Analysis

open Rule Diagnostic

def isFloatVector (field : Field) : Checked ε Bool :=
  if field.isArray then .ok (isFloat field.type)
  else
    match field.expr with
    | some (.generic name arguments) =>
      if name = TypeName.list then do
        let argument ← item arguments 0
        .ok (isFloat argument.baseName)
      else .ok false
    | _ => .ok false

def vectorFindings (input : AnalysisInput) : List Embedding → Checked ε (List Diagnostic)
  | [] => .ok []
  | vector :: vectors =>
    match input.schema.fields.get? vector.field with
    | none => vectorFindings input vectors
    | some field => do
      let fits ← isFloatVector field
      let others ← vectorFindings input vectors
      if fits then .ok others
      else
        .ok (report input Key.vector .warning (utf8 "vector-field-type")
          (utf8 "vector field " ++ vector.field ++
            utf8 " should be float[] or list<float>, got " ++ field.render) :: others)

def runVectorFieldType : List AnalysisInput → Checked ε (List Diagnostic)
  | [] => .ok []
  | input :: inputs => do
    let found ← vectorFindings input input.schema.directives.vectors
    let others ← runVectorFieldType inputs
    .ok (found ++ others)

def run (rule : Rule) (inputs : List AnalysisInput) : Checked ε (List Diagnostic) :=
  if rule.name = vectorFieldType.name then runVectorFieldType inputs else .ok (rule.run inputs)

def runAll (inputs : List AnalysisInput) : List Rule → Checked ε (List Diagnostic)
  | [] => .ok []
  | rule :: rules => do
    let found ← run rule inputs
    let others ← runAll inputs rules
    .ok (found ++ others)

def analyze (inputs : List AnalysisInput) : Checked ε (List Diagnostic) := do
  let found ← runAll inputs Rule.all
  .ok (found.mergeSort Diagnostic.le)

theorem arguments_ne_nil {field : Field} (wellFormed : field.WellFormed) {name : Text}
    {arguments : List TypeExpr} (generic : field.expr = some (.generic name arguments)) :
    arguments ≠ [] := by
  cases wellFormed with
  | relation => cases generic
  | typed valid =>
      obtain rfl := Option.some.inj generic
      cases valid with
      | map => exact List.cons_ne_nil _ _
      | list => exact List.cons_ne_nil _ _
      | named => exact List.cons_ne_nil _ _

theorem isFloatVector_eq {field : Field} (wellFormed : field.WellFormed) :
    (isFloatVector field : Checked ε Bool) = .ok (Rule.isFloatVector field) := by
  rw [isFloatVector, Rule.isFloatVector]
  by_cases array : field.isArray = true
  · rw [if_pos array, if_pos array]
  · rw [if_neg array, if_neg array]
    cases shape : field.expr with
    | none => rfl
    | some expr =>
        cases expr with
        | generic name arguments =>
            obtain ⟨argument, others, rfl⟩ :=
              List.exists_cons_of_ne_nil (arguments_ne_nil wellFormed shape)
            dsimp only
            by_cases isList : name = TypeName.list
            · rw [if_pos isList, item, List.getElem?_cons_zero]
              simp [isList]
            · rw [if_neg isList]
              simp [isList]
        | _ => rfl

variable {inputs : List AnalysisInput}

theorem vectorFindings_eq {input : AnalysisInput}
    (wellFormed : ∀ entry ∈ input.schema.fields.toList, entry.2.WellFormed)
    (vectors : List Embedding) :
    (vectorFindings input vectors : Checked ε _) =
      .ok (vectors.filterMap fun vector =>
        match input.schema.fields.get? vector.field with
        | none => none
        | some field =>
          if Rule.isFloatVector field then none
          else some <| report input Key.vector .warning (utf8 "vector-field-type")
            (utf8 "vector field " ++ vector.field ++
              utf8 " should be float[] or list<float>, got " ++ field.render)) := by
  induction vectors with
  | nil => rfl
  | cons vector vectors ih =>
      rw [vectorFindings, List.filterMap_cons]
      cases found : input.schema.fields.get? vector.field with
      | none => exact ih
      | some field =>
          have member := OrderedMap.mem_toList_of_get?_eq_some found
          dsimp only
          rw [isFloatVector_eq (wellFormed _ member), ok_bind, ih, ok_bind]
          split_ifs <;> rfl

theorem runVectorFieldType_eq
    (wellFormed : ∀ input ∈ inputs, ∀ entry ∈ input.schema.fields.toList, entry.2.WellFormed) :
    (runVectorFieldType inputs : Checked ε _) = .ok (vectorFieldType.run inputs) := by
  induction inputs with
  | nil => rfl
  | cons input inputs ih =>
      rw [List.forall_mem_cons] at wellFormed
      rw [runVectorFieldType, vectorFindings_eq wellFormed.1, ok_bind, ih wellFormed.2]
      rfl

theorem run_eq {rule : Rule} (member : rule ∈ Rule.all)
    (wellFormed : ∀ input ∈ inputs, ∀ entry ∈ input.schema.fields.toList, entry.2.WellFormed) :
    (run rule inputs : Checked ε _) = .ok (rule.run inputs) := by
  have distinct : (Rule.all.map Rule.name).Nodup := by decide
  have among : vectorFieldType ∈ Rule.all := by simp [Rule.all]
  rw [run]
  split
  next same =>
    obtain rfl := List.inj_on_of_nodup_map distinct member among same
    exact runVectorFieldType_eq wellFormed
  next => rfl

theorem runAll_eq {rules : List Rule} (known : rules ⊆ Rule.all)
    (wellFormed : ∀ input ∈ inputs, ∀ entry ∈ input.schema.fields.toList, entry.2.WellFormed) :
    (runAll inputs rules : Checked ε _) = .ok (rules.flatMap fun rule => rule.run inputs) := by
  induction rules with
  | nil => rfl
  | cons rule rules ih =>
      rw [List.cons_subset] at known
      rw [runAll, run_eq known.1 wellFormed, ok_bind, ih known.2, List.flatMap_cons]
      rfl

theorem analyze_eq
    (wellFormed : ∀ input ∈ inputs, ∀ entry ∈ input.schema.fields.toList, entry.2.WellFormed) :
    (analyze inputs : Checked ε _) = .ok (EntitySchema.analyze inputs) := by
  rw [analyze, runAll_eq (List.Subset.refl _) wellFormed]
  rfl

end Analysis

/--
Reading an expression or a record does not crash, whatever the bytes are, and neither do the rules
on what was read: with every access checked and every branch that must not be taken marked, each of
them ends as it does without.
-/
theorem never_crashes :
    (∀ text, parseField text = ofExcept (Field.parse text)) ∧
      (∀ text, parseRelation text = ofExcept (Relation.parse text)) ∧
      (∀ now record, parseSchema now record = ofExcept (Schema.ofRecord now record)) ∧
      ∀ inputs : List AnalysisInput,
        (∀ input ∈ inputs, ∃ now record, Schema.ofRecord now record = .ok input.schema) →
        (analyze inputs : Checked Empty (List Diagnostic)) =
          .ok (EntitySchema.analyze inputs) := by
  refine ⟨parseField_eq, parseRelation_eq, parseSchema_eq, fun inputs made => analyze_eq ?_⟩
  intro input member entry inside
  obtain ⟨now, record, accepted⟩ := made input member
  exact ((Schema.assembled_of_ofRecord accepted).field inside).2.1

def vectorRecord : Record :=
  .ofList [(utf8 "body", .string (utf8 "list<float>")), (utf8 "tags", .string (utf8 "list<text>")),
    (Key.vector,
      .record (.ofList [(utf8 "body", .integer .int 3), (utf8 "tags", .integer .int 3)]))]

def vectorInputs : List AnalysisInput :=
  (Schema.ofRecord Timestamp.zero vectorRecord).toOption.toList.map fun schema =>
    { path := utf8 "a.yaml", schema := schema, record := vectorRecord }

theorem never_crashes_vectors : vectorInputs.length = 1 ∧
    (Rule.vectorFieldType.run vectorInputs).length = 1 ∧
    (analyze vectorInputs : Checked Empty (List Diagnostic)) =
      .ok (EntitySchema.analyze vectorInputs) := by
  refine ⟨by decide +kernel, by decide +kernel, never_crashes.2.2.2 vectorInputs ?_⟩
  intro input member
  obtain ⟨schema, read, rfl⟩ := List.mem_map.mp member
  refine ⟨Timestamp.zero, vectorRecord, ?_⟩
  cases accepted : Schema.ofRecord Timestamp.zero vectorRecord with
  | error error => simp [accepted, Except.toOption] at read
  | ok parsed =>
      rw [accepted] at read
      exact congrArg Except.ok (List.mem_singleton.mp read).symm

end EntitySchema.Checked
