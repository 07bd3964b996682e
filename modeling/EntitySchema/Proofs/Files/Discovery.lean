import EntitySchema.Files.Discovery
import EntitySchema.Proofs.Text.Order
import Mathlib.Data.List.Sort

/-!
Discovery as a function of sets. Files are collected path by path, those of a directory in whatever
order its walk delivers them; once they are sorted and repetitions are left out, only the set of
the paths and the sets that the walks deliver can be seen.
-/

namespace EntitySchema.Discovery

section Dedup

variable {texts left right : List Text} {text : Text}

theorem mem_dedup : text ∈ dedup texts ↔ text ∈ texts := by
  fun_induction dedup texts with
  | case1 => rfl
  | case2 => rfl
  | case3 next texts ih => simp [ih]
  | case4 first next texts _ ih => simp [ih]

theorem dedup_increasing (sorted : texts.Pairwise (· ≤ ·)) : (dedup texts).Pairwise (· < ·) := by
  fun_induction dedup texts with
  | case1 => exact .nil
  | case2 text => exact List.pairwise_singleton _ text
  | case3 next texts ih => exact ih sorted.of_cons
  | case4 first next texts different ih =>
      rw [List.pairwise_cons]
      refine ⟨fun other member => ?_, ih sorted.of_cons⟩
      have below : first < next := by
        have atMost := (List.pairwise_cons.mp sorted).1 next List.mem_cons_self
        grind
      rcases List.mem_cons.mp (mem_dedup.mp member) with rfl | later
      · exact below
      · have above := (List.pairwise_cons.mp sorted.of_cons).1 other later
        grind

def normal (texts : List Text) : List Text := dedup (Text.sort texts)

theorem mem_normal : text ∈ normal texts ↔ text ∈ texts := by
  rw [normal, mem_dedup, Text.sort, List.mem_mergeSort]

theorem normal_increasing (texts : List Text) : (normal texts).Pairwise (· < ·) := by
  apply dedup_increasing
  have sorted := List.pairwise_mergeSort Text.le_trans Text.le_total texts
  exact sorted.imp Text.le_iff.mp

theorem normal_eq (increasing : right.Pairwise (· < ·)) (known : ∀ text ∈ left, text ∈ right)
    (present : ∀ text ∈ right, text ∈ left) : normal left = right := by
  apply (normal_increasing left).eq_of_mem_iff increasing
  intro text
  rw [mem_normal]
  exact ⟨known text, present text⟩

end Dedup

section Runs

variable {ε : Type} {files : FileSystem} {missing : Text → ε}
  {walk : Text → Except ε (List Text)} {path : Text} {paths : List Text}

/--
What can be collected from a list of paths. The walk of a directory delivers its files in any order,
and perhaps more than once.
-/
inductive Collects (files : FileSystem) (missing : Text → ε) (walk : Text → Except ε (List Text)) :
    List Text → Except ε (List Text) → Prop
  | done : Collects files missing walk [] (.ok [])
  | missing {path : Text} {paths : List Text} {cause : AccessError} :
      files.node path = .error cause →
      Collects files missing walk (path :: paths) (.error (missing path))
  | file {path content : Text} {paths : List Text} {outcome : Except ε (List Text)} :
      files.node path = .ok (.file content) → Collects files missing walk paths outcome →
      Collects files missing walk (path :: paths) (outcome.map (path :: ·))
  | stopped {path : Text} {paths : List Text} {entries : List (Text × FileNode)} {error : ε} :
      files.node path = .ok (.directory entries) → walk path = .error error →
      Collects files missing walk (path :: paths) (.error error)
  | directory {path : Text} {paths below delivered : List Text}
      {entries : List (Text × FileNode)} {outcome : Except ε (List Text)} :
      files.node path = .ok (.directory entries) → walk path = .ok below →
      (∀ file, file ∈ delivered ↔ file ∈ below) → Collects files missing walk paths outcome →
      Collects files missing walk (path :: paths) (outcome.map (delivered ++ ·))

def Discovers (files : FileSystem) (missing : Text → ε) (walk : Text → Except ε (List Text))
    (paths : List Text) (outcome : Except ε (List Text)) : Prop :=
  ∃ collected, Collects files missing walk paths collected ∧ outcome = collected.map normal

def Reachable (files : FileSystem) (walk : Text → Except ε (List Text)) (path : Text) : Prop :=
  (∃ node, files.node path = .ok node) ∧
    ∀ entries, files.node path = .ok (.directory entries) → ∃ below, walk path = .ok below

/-- A file stands for itself, as it is spelled, and a directory for what its walk delivers. -/
inductive Yields (files : FileSystem) (walk : Text → Except ε (List Text)) (path : Text) :
    Text → Prop
  | itself {content : Text} : files.node path = .ok (.file content) → Yields files walk path path
  | below {entries : List (Text × FileNode)} {delivered : List Text} {file : Text} :
      files.node path = .ok (.directory entries) → walk path = .ok delivered →
      file ∈ delivered → Yields files walk path file

structure IsCollection (files : FileSystem) (walk : Text → Except ε (List Text))
    (paths : List Text) (outcome : Except ε (List Text)) : Prop where
  succeeds : (∃ found, outcome = .ok found) ↔ ∀ path ∈ paths, Reachable files walk path
  members : ∀ found, outcome = .ok found →
    ∀ file, file ∈ found ↔ ∃ path ∈ paths, Yields files walk path file

theorem exists_of_map_eq_ok {outcome : Except ε (List Text)} {shape : List Text → List Text}
    {found : List Text} (same : outcome.map shape = .ok found) :
    ∃ all, outcome = .ok all ∧ shape all = found := by
  cases outcome with
  | error error => exact nomatch same
  | ok all => exact ⟨all, rfl, Except.ok.inj same⟩

theorem isCollection_error {error : ε} (unreachable : ¬Reachable files walk path) :
    IsCollection files walk (path :: paths) (.error error) where
  succeeds := by
    simp only [reduceCtorEq, exists_false, List.forall_mem_cons, false_iff, not_and]
    exact fun reachable => absurd reachable unreachable
  members := fun found failed => nomatch failed

theorem IsCollection.cons {outcome : Except ε (List Text)} (added : List Text)
    (collection : IsCollection files walk paths outcome) (reachable : Reachable files walk path)
    (yields : ∀ file, file ∈ added ↔ Yields files walk path file) :
    IsCollection files walk (path :: paths) (outcome.map (added ++ ·)) where
  succeeds := by
    rw [List.forall_mem_cons, ← collection.succeeds]
    cases outcome with
    | error error => simp [Except.map]
    | ok found => simp [Except.map, reachable]
  members := by
    intro found same file
    obtain ⟨others, known, rfl⟩ := exists_of_map_eq_ok same
    simp [yields, collection.members others known]

theorem Collects.isCollection {outcome : Except ε (List Text)}
    (run : Collects files missing walk paths outcome) :
    IsCollection files walk paths outcome := by
  induction run with
  | done => exact ⟨by simp, fun found same => by simp [← Except.ok.inj same]⟩
  | missing absent =>
      apply isCollection_error
      rintro ⟨⟨node, found⟩, _⟩
      simp [absent] at found
  | @file path content _ _ known _ ih =>
      apply IsCollection.cons [path] ih ⟨⟨_, known⟩, by simp [known]⟩
      intro file
      rw [List.mem_singleton]
      constructor
      · rintro rfl
        exact .itself known
      · rintro (_ | ⟨directory, _, _⟩)
        · rfl
        · simp [known] at directory
  | @stopped path _ entries error known failed =>
      apply isCollection_error
      intro reachable
      obtain ⟨below, walked⟩ := reachable.2 entries known
      simp [failed] at walked
  | @directory path _ below delivered entries _ known walked same _ ih =>
      apply ih.cons delivered ⟨⟨_, known⟩, fun _ _ => ⟨below, walked⟩⟩
      intro file
      rw [same]
      constructor
      · exact .below known walked
      · rintro (known' | ⟨_, walked', member⟩)
        · simp [known] at known'
        · exact Except.ok.inj (walked'.symm.trans walked) ▸ member

structure IsDiscovery (files : FileSystem) (walk : Text → Except ε (List Text))
    (paths : List Text) (outcome : Except ε (List Text)) : Prop extends
    IsCollection files walk paths outcome where
  increasing : ∀ found, outcome = .ok found → found.Pairwise (· < ·)

theorem Discovers.isDiscovery {outcome : Except ε (List Text)}
    (run : Discovers files missing walk paths outcome) :
    IsDiscovery files walk paths outcome := by
  obtain ⟨collected, run, rfl⟩ := run
  have collection := run.isCollection
  refine ⟨⟨?_, ?_⟩, ?_⟩
  · rw [← collection.succeeds]
    cases collected <;> simp [Except.map]
  · intro found same file
    obtain ⟨all, known, rfl⟩ := exists_of_map_eq_ok same
    rw [mem_normal, collection.members all known]
  · intro found same
    obtain ⟨all, _, rfl⟩ := exists_of_map_eq_ok same
    exact normal_increasing all

theorem IsDiscovery.agree {left right : List Text} {outcome other : Except ε (List Text)}
    (discovery : IsDiscovery files walk left outcome)
    (discovery' : IsDiscovery files walk right other) (same : ∀ path, path ∈ left ↔ path ∈ right) :
    outcome.toOption = other.toOption := by
  have succeed : (∃ found, outcome = .ok found) ↔ ∃ found, other = .ok found := by
    simp only [discovery.succeeds, discovery'.succeeds, same]
  cases outcome with
  | error error =>
      cases other with
      | error error' => rfl
      | ok found => simp at succeed
  | ok found =>
      cases other with
      | error error => simp at succeed
      | ok found' =>
          refine congrArg some ((discovery.increasing found rfl).eq_of_mem_iff
            (discovery'.increasing found' rfl) fun file => ?_)
          simp only [discovery.members found rfl, discovery'.members found' rfl, same]

theorem collects_mapM (paths : List Text) :
    Collects files missing walk paths
      ((paths.mapM (filesOf files missing walk)).map List.flatten) := by
  induction paths with
  | nil => exact .done
  | cons path paths ih =>
      have found (added : List Text) (own : filesOf files missing walk path = .ok added) :
          ((path :: paths).mapM (filesOf files missing walk)).map List.flatten =
            ((paths.mapM (filesOf files missing walk)).map List.flatten).map (added ++ ·) := by
        rw [List.mapM_cons, own]
        cases paths.mapM (filesOf files missing walk) <;> rfl
      have stops (error : ε) (own : filesOf files missing walk path = .error error) :
          ((path :: paths).mapM (filesOf files missing walk)).map List.flatten =
            .error error := by
        rw [List.mapM_cons, own]
        rfl
      cases known : files.node path with
      | error cause =>
          rw [stops (missing path) (by simp only [filesOf, known])]
          exact .missing known
      | ok node =>
          cases node with
          | file content =>
              rw [found [path] (by simp only [filesOf, known])]
              exact .file known ih
          | directory entries =>
              cases walked : walk path with
              | error error =>
                  rw [stops error (by simp only [filesOf, known, walked])]
                  exact .stopped known walked
              | ok below =>
                  rw [found below (by simp only [filesOf, known, walked])]
                  exact .directory known walked (fun _ => Iff.rfl) ih

theorem discovers_discoverWith (paths : List Text) :
    Discovers files missing walk paths (discoverWith files missing walk paths) := by
  refine ⟨_, collects_mapM paths, ?_⟩
  rw [discoverWith]
  cases paths.mapM (filesOf files missing walk) <;> rfl

theorem discover_eq_ok {extensions found : List Text} (collected : List (List Text))
    (collects : paths.mapM (filesOf files MissingFile.mk
      fun path => .ok (walkTree files extensions path)) = .ok collected)
    (increasing : found.Pairwise (· < ·)) (known : ∀ file ∈ collected.flatten, file ∈ found)
    (present : ∀ file ∈ found, file ∈ collected.flatten) :
    discover files extensions paths = .ok found := by
  rw [discover, discoverWith, collects]
  exact congrArg Except.ok (normal_eq increasing known present)

/--
Whatever the order of the walks, a discovery gives what the set of its paths determines; the order
and the repetitions of the paths cannot be seen either.
-/
theorem discovers_set (files : FileSystem) (missing : Text → ε)
    (walk : Text → Except ε (List Text)) :
    (∀ paths outcome, Discovers files missing walk paths outcome →
      IsDiscovery files walk paths outcome) ∧
    (∀ left right, (∀ path, path ∈ left ↔ path ∈ right) → ∀ outcome other,
      Discovers files missing walk left outcome → Discovers files missing walk right other →
        outcome.toOption = other.toOption) ∧
    (∀ paths, Discovers files missing walk paths (discoverWith files missing walk paths)) ∧
    ∀ extensions paths, Discovers files MissingFile.mk
      (fun path => .ok (walkTree files extensions path)) paths (discover files extensions paths) :=
  ⟨fun _ _ run => run.isDiscovery,
    fun _ _ same _ _ run run' => run.isDiscovery.agree run'.isDiscovery same,
    discovers_discoverWith, fun _ paths => discovers_discoverWith paths⟩

end Runs

end EntitySchema.Discovery
