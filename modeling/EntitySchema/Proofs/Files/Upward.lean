import EntitySchema.Config
import EntitySchema.Proofs.Files.Spelling
import Mathlib.Data.List.Induction

/-!
The search for a configuration. It asks a directory for each file name in turn and then goes to the
directory above, until going up changes nothing; it ends at every depth, and what it finds is the
first of the names in the deepest directory on the way that holds any of them.
-/

namespace EntitySchema

namespace Text

theorem join_concat (separator : Text) {parts : List Text} (nonempty : parts ≠ [])
    (last : Text) :
    join separator (parts ++ [last]) = join separator parts ++ separator ++ last := by
  induction parts with
  | nil => contradiction
  | cons part parts ih =>
      cases parts with
      | nil => simp [join]
      | cons next parts =>
          have rest := ih (List.cons_ne_nil _ _)
          rw [List.cons_append] at rest
          simp [join, rest]

end Text

namespace Path

variable {names : List Text} {name : Text}

theorem simplify_ofParts (proper : ∀ name ∈ names, IsName name) :
    simplify (ofParts names) = names := by
  have start : simplify (ofParts names) =
      ((Text.splitOn slash (Text.join [slash] names)).foldl (addPart true) []).reverse := by
    have split : parts (ofParts names) = [] :: Text.splitOn slash (Text.join [slash] names) := by
      simp [parts, ofParts, Text.splitOn]
    rw [simplify, split]
    rfl
  rw [start]
  by_cases empty : names = []
  · rw [empty]
    rfl
  · have given := Text.splitOn_join empty fun name member => (proper name member).2
    rw [given, foldl_names proper, List.append_nil, List.reverse_reverse]

theorem join_ofParts (proper : ∀ name ∈ names, IsName name) (named : IsName name) :
    join (ofParts names) name = ofParts (names ++ [name]) := by
  have given : ofParts names ≠ [] := List.cons_ne_nil _ _
  have together : ∀ other ∈ names ++ [name], IsName other := by
    intro other member
    rcases List.mem_append.mp member with inside | last
    · exact proper other inside
    · exact List.mem_singleton.mp last ▸ named
  have same := simplify_join_names given (List.cons_ne_nil name [])
    (List.forall_mem_singleton.mpr named)
  rw [simplify_ofParts proper, join_eq given, simplify_clean] at same
  rw [join_eq given, clean_of_absolute (isAbsolute_append given _), ← same]
  rfl

theorem ofParts_concat (names : List Text) (name : Text) :
    ofParts (names ++ [name]) = (if names = [] then [] else ofParts names) ++ slash :: name := by
  by_cases empty : names = []
  · rw [if_pos empty, empty]
    rfl
  · rw [if_neg empty, ofParts, Text.join_concat _ empty, ofParts]
    simp

theorem directory_ofParts_concat (proper : ∀ name ∈ names, IsName name) (named : IsName name) :
    directory (ofParts (names ++ [name])) = ofParts names := by
  have whole := ofParts_concat names name
  have last : baseName (ofParts (names ++ [name])) = name :=
    EndsIn.baseName_eq (Or.inr ⟨_, whole⟩) named.2
  have above : (ofParts (names ++ [name])).take
      ((ofParts (names ++ [name])).length - name.length) =
        (if names = [] then [] else ofParts names) ++ [slash] := by
    rw [whole, List.append_cons, List.length_append, Nat.add_sub_cancel, List.take_left]
  rw [directory, last, above]
  by_cases empty : names = []
  · rw [if_pos empty, empty]
    rfl
  · have given : ofParts names ≠ [] := List.cons_ne_nil _ _
    rw [if_neg empty, clean_of_absolute (isAbsolute_append given _), simplify_append given]
    change ofParts (simplify (ofParts names)).reverse.reverse = ofParts names
    rw [List.reverse_reverse, simplify_ofParts proper]

theorem directory_root : directory (ofParts []) = ofParts [] := by decide

theorem ancestors_concat (names : List Text) (name : Text) :
    ancestors (names ++ [name]) = (names ++ [name]) :: ancestors names := by
  have shorter : ∀ count ∈ List.range (names.length + 1),
      (names ++ [name]).take count = names.take count := by
    intro count inside
    have bound : count ≤ names.length := Nat.lt_succ_iff.mp (List.mem_range.mp inside)
    exact List.take_append_of_le_length bound
  rw [ancestors, ancestors, List.length_append, List.length_singleton, List.range_succ,
    List.reverse_append, List.reverse_singleton, List.singleton_append, List.map_cons]
  congr 1
  · exact List.take_of_length_le (by simp)
  · apply List.map_congr_left
    intro count inside
    exact shorter count (List.mem_reverse.mp inside)

end Path

namespace Config

open EntitySchema.Path (ofParts)

def firstIn? (present : Text → Bool) (directory : Text) : Option Text :=
  (fileNames.map (Path.join directory)).find? present

/-- The search from a directory upwards, with the number of directories that it asks. -/
inductive Search (present : Text → Bool) : Nat → Text → Option Text → Prop
  | found {directory path} : firstIn? present directory = some path →
      Search present 1 directory (some path)
  | top {directory} : firstIn? present directory = none →
      Path.directory directory = directory → Search present 1 directory none
  | up {rounds directory result} : firstIn? present directory = none →
      Path.directory directory ≠ directory →
      Search present rounds (Path.directory directory) result →
      Search present (rounds + 1) directory result

def Holds (present : Text → Bool) (parts : List Text) : Prop :=
  ∃ name ∈ fileNames, present (ofParts (parts ++ [name])) = true

def IsFirst (present : Text → Bool) (parts : List Text) (name : Text) : Prop :=
  ∃ before after, fileNames = before ++ name :: after ∧
    present (ofParts (parts ++ [name])) = true ∧
    ∀ other ∈ before, present (ofParts (parts ++ [other])) = false

/-- The path is the first configuration in the deepest directory that holds one. -/
def IsNearest (present : Text → Bool) (parts : List Text) (path : Text) : Prop :=
  ∃ above name, above <+: parts ∧ IsFirst present above name ∧ path = ofParts (above ++ [name]) ∧
    ∀ deeper, deeper <+: parts → above.length < deeper.length → ¬Holds present deeper

variable {present : Text → Bool} {parts : List Text} {path : Text}

theorem isName_of_mem_fileNames : ∀ name ∈ fileNames, Path.IsName name := by
  unfold Path.IsName Path.IsProper
  decide

theorem IsFirst.holds {name : Text} (first : IsFirst present parts name) : Holds present parts := by
  obtain ⟨before, after, listed, there, _⟩ := first
  exact ⟨name, by simp [listed], there⟩

section Proper

variable (proper : ∀ name ∈ parts, Path.IsName name)
include proper

theorem firstIn?_eq : firstIn? present (ofParts parts) =
    (fileNames.map fun name => ofParts (parts ++ [name])).find? present := by
  have joined : fileNames.map (Path.join (ofParts parts)) =
      fileNames.map fun name => ofParts (parts ++ [name]) :=
    List.map_congr_left fun name member =>
      Path.join_ofParts proper (isName_of_mem_fileNames name member)
  rw [firstIn?, joined]

theorem firstIn?_eq_some_iff : firstIn? present (ofParts parts) = some path ↔
    ∃ name, IsFirst present parts name ∧ path = ofParts (parts ++ [name]) := by
  rw [firstIn?_eq proper, List.find?_map, Option.map_eq_some_iff]
  constructor
  · rintro ⟨name, found, rfl⟩
    obtain ⟨there, before, after, listed, missing⟩ := List.find?_eq_some_iff_append.mp found
    refine ⟨name, ⟨before, after, listed, there, ?_⟩, rfl⟩
    intro other member
    simpa using missing other member
  · rintro ⟨name, ⟨before, after, listed, there, missing⟩, rfl⟩
    refine ⟨name, List.find?_eq_some_iff_append.mpr ⟨there, before, after, listed, ?_⟩, rfl⟩
    intro other member
    simpa using missing other member

theorem firstIn?_eq_none_iff : firstIn? present (ofParts parts) = none ↔
    ¬Holds present parts := by
  rw [firstIn?_eq proper, List.find?_eq_none]
  simp [Holds]

end Proper

theorem candidates_concat (parts : List Text) (last : Text) :
    (candidates (parts ++ [last])).find? present =
      (firstIn? present (ofParts (parts ++ [last]))).or ((candidates parts).find? present) := by
  rw [candidates, Path.ancestors_concat, List.flatMap_cons, List.find?_append, firstIn?, candidates]

theorem candidates_nil :
    (candidates []).find? present = firstIn? present (ofParts []) := by
  simp [candidates, Path.ancestors, firstIn?]

theorem proper_concat {last : Text} (proper : ∀ name ∈ parts ++ [last], Path.IsName name) :
    (∀ name ∈ parts, Path.IsName name) ∧ Path.IsName last := by
  simpa [or_imp, forall_and] using proper

theorem ofParts_ne_directory {last : Text}
    (proper : ∀ name ∈ parts ++ [last], Path.IsName name) :
    Path.directory (ofParts (parts ++ [last])) ≠ ofParts (parts ++ [last]) := by
  obtain ⟨front, named⟩ := proper_concat proper
  rw [Path.directory_ofParts_concat front named]
  intro same
  have lengths := congrArg List.length (congrArg Path.simplify same)
  rw [Path.simplify_ofParts front, Path.simplify_ofParts proper] at lengths
  simp at lengths

theorem exists_search (proper : ∀ name ∈ parts, Path.IsName name) :
    ∃ rounds, rounds ≤ parts.length + 1 ∧
      Search present rounds (ofParts parts) ((candidates parts).find? present) := by
  induction parts using List.reverseRecOn with
  | nil =>
      rw [candidates_nil]
      cases first : firstIn? present (ofParts []) with
      | some path => exact ⟨1, by simp, .found first⟩
      | none => exact ⟨1, by simp, .top first Path.directory_root⟩
  | append_singleton parts last ih =>
      obtain ⟨front, named⟩ := proper_concat proper
      rw [candidates_concat]
      cases first : firstIn? present (ofParts (parts ++ [last])) with
      | some path => exact ⟨1, by simp, .found first⟩
      | none =>
          obtain ⟨rounds, bound, search⟩ := ih front
          refine ⟨rounds + 1, ?_, .up first (ofParts_ne_directory proper) ?_⟩
          · rw [List.length_append, List.length_singleton]
            omega
          · rw [Path.directory_ofParts_concat front named]
            exact search

theorem Search.unique {rounds others : Nat} {directory : Text} {result other : Option Text}
    (search : Search present rounds directory result)
    (again : Search present others directory other) : other = result := by
  induction search generalizing others other with
  | found first =>
      cases again with
      | found second => exact second.symm.trans first
      | top missing _ => exact nomatch first.symm.trans missing
      | up missing _ _ => exact nomatch first.symm.trans missing
  | top missing fixed =>
      cases again with
      | found first => exact nomatch first.symm.trans missing
      | top _ _ => rfl
      | up _ moved _ => exact absurd fixed moved
  | up missing moved _ ih =>
      cases again with
      | found first => exact nomatch first.symm.trans missing
      | top _ fixed => exact absurd fixed moved
      | up _ _ later => exact ih later

theorem isNearest_concat_iff {last : Text} :
    IsNearest present (parts ++ [last]) path ↔
      (∃ name, IsFirst present (parts ++ [last]) name ∧
        path = ofParts (parts ++ [last] ++ [name])) ∨
      ¬Holds present (parts ++ [last]) ∧ IsNearest present parts path := by
  constructor
  · rintro ⟨above, name, below, first, rfl, deepest⟩
    rcases List.prefix_concat_iff.mp below with rfl | shorter
    · exact Or.inl ⟨name, first, rfl⟩
    · have bound := shorter.length_le
      refine Or.inr ⟨deepest _ (List.prefix_refl _) ?_, above, name, shorter, first, rfl, ?_⟩
      · rw [List.length_append, List.length_singleton]
        omega
      · intro deeper inside
        exact deepest deeper (inside.trans (List.prefix_append _ _))
  · rintro (⟨name, first, rfl⟩ | ⟨missing, above, name, below, first, rfl, deepest⟩)
    · refine ⟨_, name, List.prefix_refl _, first, rfl, ?_⟩
      intro deeper inside longer
      exact absurd inside.length_le (Nat.not_le.mpr longer)
    · refine ⟨above, name, below.trans (List.prefix_append _ _), first, rfl, ?_⟩
      intro deeper inside longer
      rcases List.prefix_concat_iff.mp inside with rfl | shorter
      · exact missing
      · exact deepest deeper shorter longer

theorem find?_candidates_eq_some_iff (proper : ∀ name ∈ parts, Path.IsName name) :
    (candidates parts).find? present = some path ↔ IsNearest present parts path := by
  induction parts using List.reverseRecOn with
  | nil =>
      rw [candidates_nil, firstIn?_eq_some_iff proper]
      constructor
      · rintro ⟨name, first, rfl⟩
        refine ⟨[], name, List.prefix_refl _, first, rfl, ?_⟩
        intro deeper inside longer
        exact absurd inside.length_le (Nat.not_le.mpr longer)
      · rintro ⟨above, name, below, first, rfl, _⟩
        obtain rfl := List.prefix_nil.mp below
        exact ⟨name, first, rfl⟩
  | append_singleton parts last ih =>
      obtain ⟨front, _⟩ := proper_concat proper
      rw [candidates_concat, isNearest_concat_iff, ← firstIn?_eq_some_iff proper,
        ← firstIn?_eq_none_iff proper, ← ih front]
      cases firstIn? present (ofParts (parts ++ [last])) <;> simp

theorem find?_candidates_eq_none_iff (proper : ∀ name ∈ parts, Path.IsName name) :
    (candidates parts).find? present = none ↔
      ∀ above, above <+: parts → ¬Holds present above := by
  induction parts using List.reverseRecOn with
  | nil =>
      rw [candidates_nil, firstIn?_eq_none_iff proper]
      simp
  | append_singleton parts last ih =>
      obtain ⟨front, _⟩ := proper_concat proper
      rw [candidates_concat, Option.or_eq_none_iff, firstIn?_eq_none_iff proper, ih front]
      simp only [List.prefix_concat_iff, forall_eq_or_imp]

theorem loadNearest_eq_notFound_iff (files : FileSystem) (directory : Text) :
    loadNearest files directory = .error .notFound ↔ find? files directory = none := by
  unfold loadNearest
  cases find? files directory with
  | none => simp
  | some path =>
      simp only [load, reduceCtorEq, iff_false]
      split
      next => simp
      next => split <;> simp

structure SearchEnds (present : Text → Bool) (directory : Text) (result : Option Text) : Prop where
  ends : ∃ rounds, rounds ≤ (Path.simplify directory).length + 1 ∧
    Search present rounds (Path.clean directory) result
  unique : ∀ rounds other, Search present rounds (Path.clean directory) other → other = result
  nearest : ∀ path, result = some path ↔ IsNearest present (Path.simplify directory) path
  missing : result = none ↔ ∀ above, above <+: Path.simplify directory → ¬Holds present above
  loaded : ∀ files : FileSystem, files.contains = present → find? files directory = result ∧
    (loadNearest files directory = .error .notFound ↔ result = none)

/--
Whichever paths exist, the search from an absolute directory ends with one result: the nearest
configuration, or none if no directory on the way to the root holds any.
-/
theorem search_nearest (present : Text → Bool) {directory : Text}
    (rooted : Path.isAbsolute directory = true) :
    ∃ result, SearchEnds present directory result := by
  have proper : ∀ name ∈ Path.simplify directory, Path.IsName name := by
    obtain ⟨count, names, shape, proper, top⟩ := Path.simplify_shape directory
    rw [shape, top rooted]
    exact proper
  have start := Path.clean_of_absolute rooted
  obtain ⟨rounds, bound, search⟩ := @exists_search present _ proper
  refine ⟨(candidates (Path.simplify directory)).find? present,
    ⟨rounds, bound, start ▸ search⟩, ?_, fun path => find?_candidates_eq_some_iff proper,
    find?_candidates_eq_none_iff proper, ?_⟩
  · intro others other again
    exact search.unique (start ▸ again)
  · rintro files rfl
    have same : find? files directory =
        (candidates (Path.simplify directory)).find? files.contains := by
      rw [find?, Path.absolute, if_pos rooted, Path.simplify_clean]
    refine ⟨same, ?_⟩
    rw [loadNearest_eq_notFound_iff, same]

def dataDirectory : Text := utf8 "/srv/app/../data"

def configurations : List Text :=
  [utf8 "/icetype.yaml", utf8 "/srv/icetype.yaml", utf8 "/srv/.icetype.yml",
    utf8 "/srv/app/.icetype.yaml"]

theorem search_nearest_data : Path.isAbsolute dataDirectory = true ∧
    ∃ result, SearchEnds configurations.contains dataDirectory result ∧
      result = some (utf8 "/srv/.icetype.yml") := by
  have rooted : Path.isAbsolute dataDirectory = true := rfl
  obtain ⟨result, ends⟩ := search_nearest configurations.contains rooted
  have search : Search configurations.contains 2 (Path.clean dataDirectory)
      (some (utf8 "/srv/.icetype.yml")) :=
    .up (by decide) (by decide) (.found (by decide))
  exact ⟨rooted, result, ends, (ends.unique 2 _ search).symm⟩

end Config

end EntitySchema
