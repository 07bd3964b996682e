import EntitySchema.Command.Run
import EntitySchema.Proofs.Files.Discovery
import EntitySchema.Proofs.Loader.Unchanged
import EntitySchema.Proofs.Number.Numeral
import EntitySchema.Proofs.Yaml.Endless

/-!
The verdict of a check. Whether the command ends and passes, what its summary counts and what it
reports is told by the files alone: by what each of them gives when nothing else is loaded, and by
the analysis of all schemas together.
-/

namespace EntitySchema

namespace CheckReport

/-- What a path gives that is loaded on its own. -/
def alone (now : Timestamp) (files : FileSystem) (path : Text) : Except LoadError LoadedFile :=
  (Loader.load now files {} path).2

def failureOf? : Except LoadError LoadedFile → Option LoadError
  | .error error => some error
  | .ok _ => none

def inputsOfResult (path : Text) : Except LoadError LoadedFile → List AnalysisInput
  | .error _ => []
  | .ok file => inputsOf path file

def failuresAmong (now : Timestamp) (files : FileSystem) (paths : List Text) : List LoadError :=
  paths.filterMap fun path => failureOf? (alone now files path)

def inputsAmong (now : Timestamp) (files : FileSystem) (paths : List Text) : List AnalysisInput :=
  paths.flatMap fun path => inputsOfResult path (alone now files path)

theorem loadEach_eq {now : Timestamp} {files : FileSystem} {loader : Loader}
    (since : Loader.Since files {now} {} loader) (paths : List Text) :
    loadEach now files loader paths =
      (failuresAmong now files paths, inputsAmong now files paths) := by
  induction paths generalizing loader with
  | nil => rfl
  | cons path paths ih =>
      obtain ⟨yields, later⟩ := since.load (Set.mem_singleton now) path
      obtain ⟨moment, isNow, same⟩ := yields.exists_load now
      obtain rfl : moment = now := isNow.elim id id
      change _ = (alone moment files path).map _ at same
      rw [loadEach]
      dsimp only
      rw [ih later]
      simp only [failuresAmong, inputsAmong, List.filterMap_cons, List.flatMap_cons]
      cases loaded : (loader.load moment files path).2 with
      | error error =>
          cases first : alone moment files path with
          | ok file => simp [loaded, first, Except.map] at same
          | error other =>
              rw [loaded, first] at same
              obtain rfl := Except.error.inj same
              simp [failureOf?, inputsOfResult]
      | ok file =>
          cases first : alone moment files path with
          | error other => simp [loaded, first, Except.map] at same
          | ok other =>
              rw [loaded, first] at same
              have plain : file.anonymous = other.anonymous := Except.ok.inj same
              have inputs : inputsOf path file = inputsOf path other := by
                change inputsOf path file.anonymous = inputsOf path other.anonymous
                rw [plain]
              simp [failureOf?, inputsOfResult, inputs]

theorem ofPaths_eq (now : Timestamp) (files : FileSystem) (paths : List Text) :
    ofPaths now files paths =
      ⟨paths, failuresAmong now files paths, inputsAmong now files paths⟩ := by
  rw [ofPaths, loadEach_eq (Loader.Since.refl files {now} {})]

/-- Loading the file at a path, and nothing else, does not end. -/
def NeverLoads (now : Timestamp) (files : FileSystem) (path : Text) : Prop :=
  ∃ error, alone now files path = .error error ∧ error.isEndless = true

/-- The file at a path has an alias to a node around it. -/
def HoldsCycle (files : FileSystem) (path : Text) : Prop :=
  ∃ text, files.read (Loader.absolutePath files path) = .ok text ∧
    ∃ root ∈ (Yaml.documents text).1, root.HoldsCycle

theorem isEndless_undecodable {path : Text} {cause : DecodeError} :
    ({ path := path, cause := .undecodable cause } : LoadError).isEndless = true ↔
      cause = .endless := by
  simp [LoadError.isEndless]

theorem ofPath_ne_endless (path : Text) : FileFormat.ofPath path ≠ .error .endless := by
  unfold FileFormat.ofPath
  dsimp only
  split
  · simp
  · split <;> simp

theorem isEndless_of_textAt {files : FileSystem} {path : Text} {error : LoadError}
    (failed : Loader.textAt files path = .error error) : error.isEndless = false := by
  unfold Loader.textAt Loader.readText at failed
  split at failed
  · contradiction
  · obtain rfl := Except.error.inj failed
    split <;> rfl

theorem isEndless_of_schemasOf {now : Timestamp} {path : Text} {index : Nat}
    {records : List Record} {error : LoadError}
    (failed : FileContent.schemasOf now path index records = .error error) :
    error.isEndless = false := by
  induction records generalizing index with
  | nil => contradiction
  | cons record records ih =>
      rw [FileContent.schemasOf] at failed
      split at failed
      · obtain rfl := Except.error.inj failed
        rfl
      · split at failed
        next behind =>
          obtain rfl := Except.error.inj failed
          exact ih behind
        · contradiction

theorem exists_decode_of_ofText {now : Timestamp} {path absolutePath text : Text}
    {error : LoadError} (failed : FileContent.ofText now path absolutePath text = .error error)
    (endless : error.isEndless = true) :
    ∃ format, Record.decode format text = .error .endless := by
  unfold FileContent.ofText at failed
  split at failed
  next cause unknown =>
    obtain rfl := Except.error.inj failed
    obtain rfl := isEndless_undecodable.mp endless
    exact absurd unknown (ofPath_ne_endless absolutePath)
  next format _ =>
    split at failed
    next cause refused =>
      obtain rfl := Except.error.inj failed
      obtain rfl := isEndless_undecodable.mp endless
      exact ⟨format, refused⟩
    · split at failed
      next unmade =>
        obtain rfl := Except.error.inj failed
        simp [isEndless_of_schemasOf unmade] at endless
      · cases failed

theorem NeverLoads.holdsCycle {now : Timestamp} {files : FileSystem} {path : Text}
    (never : NeverLoads now files path) : HoldsCycle files path := by
  obtain ⟨error, failed, endless⟩ := never
  have outcome := Loader.loads_load now files {} path
  rw [alone] at failed
  generalize Loader.load now files {} path = result at outcome failed
  cases outcome with
  | unreadable unread =>
      obtain rfl := Except.error.inj failed
      simp [isEndless_of_textAt unread] at endless
  | kept => contradiction
  | refused read _ refused =>
      obtain rfl := Except.error.inj failed
      obtain ⟨format, decoded⟩ := exists_decode_of_ofText refused endless
      exact ⟨_, Loader.textAt_eq_ok.mp read, Record.exists_holdsCycle_of_decode decoded⟩
  | made => contradiction

end CheckReport

namespace Invocation

open CheckReport

end Invocation

end EntitySchema
