import EntitySchema.Command.Check
import EntitySchema.Proofs.Analysis.Report
import EntitySchema.Proofs.Loader.Transparency
import EntitySchema.Proofs.Schema.Assembled
import EntitySchema.Proofs.Yaml.Decoded

/-!
Where findings stand. A rule names a key that it has from the schema, and a schema has all of its
keys from its record; so what is reported about a decoded record stands on one of its lines.
-/

namespace EntitySchema

namespace Directives

variable {directives : Directives} {key other : Text}

/-- An entry changes no directive but its own. -/
structure Frames (directives changed : Directives) (key : Text) : Prop where
  partitionBy : key ≠ Key.partitionBy → changed.partitionBy = directives.partitionBy
  index : key ≠ Key.index → changed.indexes = directives.indexes
  fullText : key ≠ Key.fullText → changed.fullText = directives.fullText
  vector : key ≠ Key.vector → changed.vectors = directives.vectors

theorem frames_add (directives : Directives) (key : Text) (value : Value) :
    directives.Frames (directives.add key value) key := by
  unfold add
  split
  next own =>
    split
    · exact ⟨fun other => absurd own other, fun _ => rfl, fun _ => rfl, fun _ => rfl⟩
    · exact ⟨fun _ => rfl, fun _ => rfl, fun _ => rfl, fun _ => rfl⟩
  split
  next own => exact ⟨fun _ => rfl, fun other => absurd own other, fun _ => rfl, fun _ => rfl⟩
  split
  next own =>
    split
    · exact ⟨fun _ => rfl, fun _ => rfl, fun other => absurd own other, fun _ => rfl⟩
    · exact ⟨fun _ => rfl, fun _ => rfl, fun _ => rfl, fun _ => rfl⟩
  split
  next own => exact ⟨fun _ => rfl, fun _ => rfl, fun _ => rfl, fun other => absurd own other⟩
  · exact ⟨fun _ => rfl, fun _ => rfl, fun _ => rfl, fun _ => rfl⟩

theorem Holds.before (value : Value) (holds : (directives.add other value).Holds key) :
    directives.Holds key ∨ key = other := by
  have frames := frames_add directives other value
  by_cases own : key = other
  · exact Or.inr own
  · refine Or.inl ?_
    cases holds with
    | partitionBy given => exact .partitionBy (frames.partitionBy (Ne.symm own) ▸ given)
    | index given => exact .index (frames.index (Ne.symm own) ▸ given)
    | fullText given => exact .fullText (frames.fullText (Ne.symm own) ▸ given)
    | vector given => exact .vector (frames.vector (Ne.symm own) ▸ given)

theorem Holds.mem_keys {record : Record} (holds : (ofRecord record).Holds key) :
    key ∈ record.keys := by
  have since : ∀ (entries : List (Text × Value)) (start : Directives),
      (entries.foldl (fun directives entry => directives.add entry.1 entry.2) start).Holds key →
        start.Holds key ∨ key ∈ entries.map Prod.fst := by
    intro entries
    induction entries with
    | nil => exact fun start holds => Or.inl holds
    | cons entry entries ih =>
        intro start holds
        rcases ih _ holds with first | later
        · rcases first.before entry.2 with earlier | rfl
          · exact Or.inl earlier
          · exact Or.inr List.mem_cons_self
        · exact Or.inr (List.mem_cons_of_mem _ later)
  rw [OrderedMap.keys_eq]
  rcases since record.toList {} holds with nothing | member
  · cases nothing <;> contradiction
  · exact member

end Directives

namespace Schema

variable {schema : Schema} {record : Record} {key : Text}

theorem Assembled.mem_keys (assembled : schema.Assembled record) (mentions : schema.Mentions key) :
    key = [] ∨ key ∈ record.keys := by
  obtain ⟨directives, splits⟩ := assembled.splits
  cases mentions with
  | whole => exact Or.inl rfl
  | field declared =>
      rw [OrderedMap.keys_eq] at declared ⊢
      exact Or.inr (splits.fields_sublist.subset declared)
  | relation declared =>
      rw [OrderedMap.keys_eq] at declared ⊢
      exact Or.inr (splits.relations_sublist.subset declared)
  | directive held =>
      rw [assembled.directives] at held
      exact Or.inr held.mem_keys

end Schema

structure AnalysisInput.IsAssembled (input : AnalysisInput) : Prop where
  decoded : input.record.IsDecoded
  assembled : ∃ now, Schema.ofRecord now input.record = .ok input.schema

/-- The diagnostic belongs to an input, and its line is that of the key it is about. -/
structure Diagnostic.StandsIn (diagnostic : Diagnostic) (input : AnalysisInput) : Prop where
  path : diagnostic.path = input.path
  schema : diagnostic.schema = input.schema.name
  key : diagnostic.field ≠ [] → diagnostic.field ∈ input.record.keys ∧
    diagnostic.line = input.record.lineOf diagnostic.field ∧ 1 ≤ diagnostic.line
  whole : diagnostic.field = [] → diagnostic.line = input.record.lineOf Key.type ∧
    (Key.type ∈ input.record.keys → 1 ≤ diagnostic.line)
  directive : diagnostic.code ∈ Rule.ofDirectives.map Rule.name →
    diagnostic.field ∈ [Key.partitionBy, Key.index, Key.fullText, Key.vector] ∧
      diagnostic.field ∈ input.record.keys

theorem CheckReport.assembled_of_mem_inputsOf {path absolutePath text : Text} {file : LoadedFile}
    (describes : file.Describes absolutePath text) :
    ∀ input ∈ inputsOf path file, input.IsAssembled := by
  intro input member
  obtain ⟨⟨schema, record⟩, paired, rfl⟩ := List.mem_map.mp member
  obtain ⟨format, _, decoded⟩ := describes.records
  have accepted := List.forall₂_zip (List.Forall₂.flip describes.schemas) paired
  exact ⟨.file decoded (List.of_mem_zip paired).2, accepted⟩

theorem Directives.Holds.mem_directives {directives : Directives} {key : Text}
    (holds : directives.Holds key) :
    key ∈ [Key.partitionBy, Key.index, Key.fullText, Key.vector] := by
  cases holds <;> simp

/-- What the rules find in decoded records stands on a line of the record that it is about. -/
theorem analyze_located {inputs : List AnalysisInput}
    (assembled : ∀ input ∈ inputs, input.IsAssembled) :
    ∀ diagnostic ∈ analyze inputs, ∃ input ∈ inputs, diagnostic.StandsIn input := by
  intro diagnostic found
  obtain ⟨rule, known, found⟩ := mem_analyze.mp found
  obtain ⟨input, member, field, message, rfl, mentions, holds⟩ := Rule.reports_of_mem known found
  obtain ⟨now, accepted⟩ := (assembled input member).assembled
  have placed := (assembled input member).decoded.placed
  have origin := Schema.assembled_of_ofRecord accepted
  refine ⟨input, member, rfl, rfl, ?_, ?_, ?_⟩
  · intro named
    have named : field ≠ [] := named
    have line : (Diagnostic.report input field rule.severity rule.name message).line =
        input.record.lineOf field := by
      rw [Diagnostic.report, if_neg (by simpa using named)]
    have inside := (origin.mem_keys mentions).resolve_left named
    exact ⟨inside, line, line ▸ placed.lineOf inside⟩
  · intro unnamed
    have unnamed : field = [] := unnamed
    have line : (Diagnostic.report input field rule.severity rule.name message).line =
        input.record.lineOf Key.type := by
      rw [Diagnostic.report, if_pos (by simpa using unnamed)]
    exact ⟨line, fun inside => line ▸ placed.lineOf inside⟩
  · intro isDirective
    have held := holds isDirective
    refine ⟨held.mem_directives, ?_⟩
    rw [origin.directives] at held
    exact held.mem_keys

def strayText : Text :=
  utf8 "$type: Doc\n$index:\n  - []\n$vector:\n  body: 0\n" ++
    utf8 "body: string\nowner: -> User\n---\nsize: int!?\n"

def strayInputs : List AnalysisInput :=
  match FileContent.ofText Timestamp.zero (utf8 "a.yaml") (utf8 "/a.yaml") strayText with
  | .ok content =>
    CheckReport.inputsOf (utf8 "a.yaml") { content with path := utf8 "/a.yaml", serial := 0 }
  | .error _ => []

theorem analyze_located_stray :
    (Rule.all.flatMap fun rule => (rule.run strayInputs).map fun diagnostic =>
      (diagnostic.field, diagnostic.line)) = [(utf8 "owner", 7), ([], 0), (utf8 "size", 9),
        (Key.vector, 4), (Key.vector, 4), (Key.index, 2)] ∧
      ∀ diagnostic ∈ analyze strayInputs, ∃ input ∈ strayInputs, diagnostic.StandsIn input := by
  refine ⟨by decide +kernel, analyze_located ?_⟩
  unfold strayInputs
  split
  next content made =>
    exact CheckReport.assembled_of_mem_inputsOf (FileContent.describes_of_ofText made 0)
  · exact fun _ member => nomatch member

end EntitySchema
