import EntitySchema.Proofs.Analysis.Integrity
import EntitySchema.Proofs.Command.Verdict
import EntitySchema.Proofs.Files.Overlap

/-!
Checks of overlapping paths. A schema is reported as declared already if its name has been seen in
an earlier record, so a file that is named twice is taken for two declarations of what it holds.
-/

namespace EntitySchema

theorem Rule.eq_duplicateSchema {rule : Rule} (known : rule ∈ all)
    (named : rule.name = duplicateSchema.name) : rule = duplicateSchema := by
  simp only [all, List.mem_cons, List.not_mem_nil, or_false] at known
  rcases known with rfl | rfl | rfl | rfl | rfl | rfl | rfl | rfl | rfl | rfl | rfl
  · rfl
  all_goals exact absurd named (by decide)

namespace CheckReport

variable {now : Timestamp} {files : FileSystem} {paths : List Text}

def Declares (now : Timestamp) (files : FileSystem) (path : Text) (index : Nat) (name : Text) :
    Prop :=
  ∃ file schema, alone now files path = .ok file ∧ file.schemas[index]? = some schema ∧
    schema.name = name

/-- The name is declared by two records, in different files or at different places in one. -/
def DeclaredTwice (now : Timestamp) (files : FileSystem) (paths : List Text) (name : Text) :
    Prop :=
  ∃ left ∈ paths, ∃ right ∈ paths, ∃ index number,
    (Loader.absolutePath files left, index) ≠ (Loader.absolutePath files right, number) ∧
      Declares now files left index name ∧ Declares now files right number name

def placed (now : Timestamp) (files : FileSystem) (paths : List Text) :
    List ((Text × Nat) × AnalysisInput) :=
  paths.flatMap fun path => (inputsOfResult path (alone now files path)).zipIdx.map
    fun (input, index) => ((Loader.absolutePath files path, index), input)

theorem placed_map_snd (now : Timestamp) (files : FileSystem) (paths : List Text) :
    (placed now files paths).map Prod.snd = inputsAmong now files paths := by
  simp [placed, inputsAmong, List.map_flatMap, Function.comp_def]

theorem nodup_places (different : (paths.map (Loader.absolutePath files)).Nodup) :
    ((placed now files paths).map Prod.fst).Nodup := by
  have numbered (path : Text) (inputs : List AnalysisInput) :
      (inputs.zipIdx.map fun entry => (Loader.absolutePath files path, entry.2)) =
        (List.range' 0 inputs.length).map fun index => (Loader.absolutePath files path, index) := by
    rw [← List.zipIdx_map_snd, List.map_map]
    rfl
  simp only [placed, List.map_flatMap, List.map_map, Function.comp_def, numbered]
  rw [List.nodup_flatMap]
  constructor
  · intro path _
    exact List.Nodup.map (fun left right same => (Prod.mk.inj same).2) List.nodup_range'
  · rw [List.Nodup, List.pairwise_map] at different
    apply different.imp
    rintro left right apart place memberLeft memberRight
    obtain ⟨_, _, rfl⟩ := List.mem_map.mp memberLeft
    obtain ⟨_, _, same⟩ := List.mem_map.mp memberRight
    exact apart (Prod.mk.inj same).1.symm

theorem declares_of_mem_placed {place : Text × Nat} {input : AnalysisInput}
    (member : (place, input) ∈ placed now files paths) :
    ∃ path ∈ paths, place.1 = Loader.absolutePath files path ∧
      Declares now files path place.2 input.schema.name := by
  obtain ⟨path, known, member⟩ := List.mem_flatMap.mp member
  obtain ⟨⟨_, index⟩, numbered, same⟩ := List.mem_map.mp member
  obtain ⟨rfl, rfl⟩ := Prod.mk.inj same
  refine ⟨path, known, rfl, ?_⟩
  have stands := List.mk_mem_zipIdx_iff_getElem?.mp numbered
  cases loaded : alone now files path with
  | error error => simp [loaded, inputsOfResult] at stands
  | ok file =>
      simp only [loaded, inputsOfResult, inputsOf, List.getElem?_map, Option.map_eq_some_iff,
        Prod.exists] at stands
      obtain ⟨schema, record, paired, rfl⟩ := stands
      exact ⟨file, schema, loaded, (List.getElem?_zip_eq_some.mp paired).1, rfl⟩

/-- As long as no file is named twice, what is reported as declared already is declared twice. -/
theorem declaredTwice_of_mem (different : (paths.map (Loader.absolutePath files)).Nodup)
    {diagnostic : Diagnostic}
    (found : diagnostic ∈ Rule.duplicateSchema.run (inputsAmong now files paths)) :
    DeclaredTwice now files paths diagnostic.schema := by
  obtain ⟨⟨input, first⟩, pair, rfl⟩ := List.mem_map.mp found
  obtain ⟨front, rest, split, before, same⟩ := Rule.first_of_mem_duplicatesFrom pair
  have inFront : first ∈ front := before.resolve_left List.not_mem_nil
  have places : ((placed now files paths).map Prod.fst).Nodup := nodup_places different
  -- The findings before the second one are told apart from it by their places.
  rw [← placed_map_snd, List.map_eq_append_iff] at split
  obtain ⟨earlier, others, whole, earlierInputs, otherInputs⟩ := split
  obtain ⟨⟨place, own⟩, later, rfl, ownInput, _⟩ := List.map_eq_cons_iff.mp otherInputs
  obtain rfl : own = input := ownInput
  rw [← earlierInputs] at inFront
  obtain ⟨⟨firstPlace, _⟩, firstMember, rfl⟩ := List.mem_map.mp inFront
  obtain ⟨left, leftKnown, leftPlace, leftDeclares⟩ :=
    declares_of_mem_placed (whole ▸ List.mem_append_left _ firstMember)
  obtain ⟨right, rightKnown, rightPlace, rightDeclares⟩ :=
    declares_of_mem_placed (whole ▸ List.mem_append_right _ List.mem_cons_self)
  rw [whole, List.map_append, List.nodup_append] at places
  have apart : firstPlace ≠ place :=
    places.2.2 firstPlace (List.mem_map_of_mem firstMember) place List.mem_cons_self
  rw [same] at leftDeclares
  refine ⟨left, leftKnown, right, rightKnown, firstPlace.2, place.2, ?_, leftDeclares,
    rightDeclares⟩
  rwa [← leftPlace, ← rightPlace]

end CheckReport

namespace Discovery

open CheckReport

variable {ε : Type} {files : FileSystem} {missing : Text → ε}
  {walk : Text → Except ε (List Text)} {paths : List Text}

/--
A discovery of paths that exist names every file once exactly if the paths are spelled alike; a
check of what it has found then takes no schema for declared twice that is declared once.
-/
theorem discover_different_iff (stays : StaysBelow walk)
    (reachable : ∀ path ∈ paths, Reachable files walk path) :
    ∃ found, discoverWith files missing walk paths = .ok found ∧
      ((found.map (Loader.absolutePath files)).Nodup ↔ SpelledAlike files walk paths) ∧
      (SpelledAlike files walk paths → ∀ now,
        ∀ diagnostic ∈ (ofPaths now files found).diagnostics,
          diagnostic.code = Rule.duplicateSchema.name →
            DeclaredTwice now files found diagnostic.schema) := by
  have discovery : IsDiscovery files walk paths (discoverWith files missing walk paths) :=
    (discovers_discoverWith paths).isDiscovery
  obtain ⟨found, succeeded⟩ := discovery.succeeds.mpr reachable
  rw [succeeded] at discovery
  have different := discovery.nodup_iff stays
  refine ⟨found, succeeded, different, ?_⟩
  intro alike now diagnostic reported code
  rw [diagnostics, ofPaths_eq] at reported
  obtain ⟨rule, known, reported⟩ := mem_analyze.mp reported
  have named := (Rule.code_of_mem known reported).symm.trans code
  rw [Rule.eq_duplicateSchema known named] at reported
  exact declaredTwice_of_mem (different.mpr alike) reported

def nestedFiles : FileSystem where
  root := .directory [(utf8 "work", .directory [
    (utf8 "d", .directory [(utf8 "a.yaml", .file (utf8 "$type: A\n"))]),
    (utf8 "b.yaml", .file (utf8 "$type: B\n"))])]
  workingParts := [utf8 "work"]

def nestedPaths : List Text := [utf8 "d", utf8 "b.yaml", utf8 "d/a.yaml"]

theorem discover_different_iff_nested :
    ∃ found, discover nestedFiles [utf8 ".yaml"] nestedPaths = .ok found ∧
      (found.map (Loader.absolutePath nestedFiles)).Nodup ∧
      ∀ now, ∀ diagnostic ∈ (ofPaths now nestedFiles found).diagnostics,
        diagnostic.code = Rule.duplicateSchema.name →
          DeclaredTwice now nestedFiles found diagnostic.schema := by
  have named : nestedFiles.root.WellNamed := by
    refine .directory (by decide) (List.forall_mem_singleton.mpr ?_)
    refine .directory (by decide) (List.forall_mem_cons.mpr ⟨?_, ?_⟩)
    · exact .directory (by decide) (List.forall_mem_singleton.mpr .file)
    · exact List.forall_mem_singleton.mpr .file
  have reachable : ∀ path ∈ nestedPaths, Reachable nestedFiles
      (fun path => (.ok (walkTree nestedFiles [utf8 ".yaml"] path) :
        Except MissingFile (List Text))) path := by
    have known : ∀ path ∈ nestedPaths, nestedFiles.contains path = true := by decide
    intro path member
    refine ⟨?_, fun _ _ => ⟨_, rfl⟩⟩
    have present := known path member
    unfold FileSystem.contains at present
    split at present
    next node found => exact ⟨node, found⟩
    · contradiction
  have alike : SpelledAlike nestedFiles (fun path =>
      (.ok (walkTree nestedFiles [utf8 ".yaml"] path) : Except MissingFile (List Text)))
      nestedPaths := spelledAlike_of_clean (by decide) (by decide)
  obtain ⟨found, succeeded, different, reports⟩ :=
    discover_different_iff (staysBelow_walkTree named [utf8 ".yaml"]) reachable
  exact ⟨found, succeeded, different.mpr alike, reports alike⟩

def aliasFiles : FileSystem where
  root := .directory [(utf8 "work", .directory [(utf8 "a.yaml", .file (utf8 "$type: A\n"))])]
  workingParts := [utf8 "work"]

def aliasFound : List Text := [utf8 "./a.yaml", utf8 "a.yaml"]

/-- The file is found twice, and the one schema in it is reported as declared already. -/
theorem discover_twice :
    discover aliasFiles [utf8 ".yaml"] [utf8 "a.yaml", utf8 "./a.yaml"] = .ok aliasFound ∧
      ¬(aliasFound.map (Loader.absolutePath aliasFiles)).Nodup ∧
      ∃ diagnostic ∈ (ofPaths Timestamp.zero aliasFiles aliasFound).diagnostics,
        diagnostic.code = Rule.duplicateSchema.name ∧
          ¬DeclaredTwice Timestamp.zero aliasFiles aliasFound diagnostic.schema := by
  have single : ∀ path ∈ aliasFound, ((alone Timestamp.zero aliasFiles path).map
      fun file => file.schemas.length) = .ok 1 := by decide +kernel
  have first {path name : Text} {index : Nat} (member : path ∈ aliasFound)
      (declares : Declares Timestamp.zero aliasFiles path index name) : index = 0 := by
    obtain ⟨file, schema, loaded, stands, _⟩ := declares
    have length : file.schemas.length = 1 := by
      have counted := single path member
      rw [loaded] at counted
      exact Except.ok.inj counted
    have inside := (List.getElem?_eq_some_iff.mp stands).1
    omega
  have place : ∀ path ∈ aliasFound,
      Loader.absolutePath aliasFiles path = utf8 "/work/a.yaml" := by decide
  have found : discover aliasFiles [utf8 ".yaml"] [utf8 "a.yaml", utf8 "./a.yaml"] =
      .ok aliasFound :=
    discover_eq_ok [[utf8 "a.yaml"], [utf8 "./a.yaml"]] (by decide +kernel) (by decide +kernel)
      (by decide +kernel) (by decide +kernel)
  refine ⟨found, by decide, ?_⟩
  have once : (Rule.duplicateSchema.run
      (inputsAmong Timestamp.zero aliasFiles aliasFound)).length = 1 := by decide +kernel
  obtain ⟨diagnostic, reported⟩ := List.length_eq_one_iff.mp once
  refine ⟨diagnostic, ?_, ?_, ?_⟩
  · rw [diagnostics, ofPaths_eq]
    exact mem_analyze.mpr ⟨Rule.duplicateSchema, by simp [Rule.all], by simp [reported]⟩
  · exact Rule.code_of_mem (by simp [Rule.all]) (by rw [reported]; exact List.mem_singleton_self _)
  · rintro ⟨left, leftKnown, right, rightKnown, index, number, apart, leftDeclares, rightDeclares⟩
    apply apart
    rw [place left leftKnown, place right rightKnown, first leftKnown leftDeclares,
      first rightKnown rightDeclares]

end Discovery

end EntitySchema
