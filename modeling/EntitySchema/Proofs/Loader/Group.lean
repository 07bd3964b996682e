import EntitySchema.Proofs.Loader.Unchanged
import Mathlib.Algebra.Ring.Nat
import Mathlib.Logic.Relation
import Mathlib.Order.WellFounded

/-!
Loading files at the same time. Looking into the cache and keeping a file are steps of their own,
which may alternate with those of other loads in any order, and a load that has not begun when
another one fails is skipped. What comes out does not depend on that order.
-/

namespace EntitySchema

namespace LoadGroup

inductive Failure where
  | load (error : LoadError)
  | canceled

inductive Stage where
  | waiting
  | started
  /-- Nothing of use was kept, and what the file holds is known now. -/
  | made (content : FileContent)
  | loaded (file : LoadedFile)
  | failed (failure : Failure)
  | recorded
  | ended

structure Shared where
  loader : Loader
  failure : Option Failure := none
  isCanceled : Bool := false

end LoadGroup

/-- Some paths that are loaded at the same time, each at a stage of its own. -/
structure LoadGroup where
  shared : LoadGroup.Shared
  tasks : List (Text × LoadGroup.Stage)

namespace LoadGroup

open Loader

def ofPaths (loader : Loader) (paths : List Text) : LoadGroup :=
  { shared := { loader }, tasks := paths.map fun path => (path, .waiting) }

inductive TaskStep (files : FileSystem) (path : Text) : Shared × Stage → Shared × Stage → Prop
  | start {shared : Shared} : shared.isCanceled = false →
      TaskStep files path (shared, .waiting) (shared, .started)
  | skip {shared : Shared} : shared.isCanceled = true →
      TaskStep files path (shared, .waiting) (shared, .failed .canceled)
  | unreadable {shared : Shared} {error : LoadError} : textAt files path = .error error →
      TaskStep files path (shared, .started) (shared, .failed (.load error))
  | find {shared : Shared} {text : Text} {file : LoadedFile} : textAt files path = .ok text →
      shared.loader.lookup? (absolutePath files path) (Hash.hash text) = some file →
      TaskStep files path (shared, .started) (shared, .loaded file)
  | refuse {shared : Shared} {now : Timestamp} {text : Text} {error : LoadError} :
      textAt files path = .ok text →
      shared.loader.lookup? (absolutePath files path) (Hash.hash text) = none →
      FileContent.ofText now path (absolutePath files path) text = .error error →
      TaskStep files path (shared, .started) (shared, .failed (.load error))
  | make {shared : Shared} {now : Timestamp} {text : Text} {content : FileContent} :
      textAt files path = .ok text →
      shared.loader.lookup? (absolutePath files path) (Hash.hash text) = none →
      FileContent.ofText now path (absolutePath files path) text = .ok content →
      TaskStep files path (shared, .started) (shared, .made content)
  | keep {shared : Shared} {content : FileContent} {file : LoadedFile} :
      file = { content with
        path := absolutePath files path, serial := shared.loader.loads } →
      TaskStep files path (shared, .made content)
        ({ shared with loader := shared.loader.store file }, .loaded file)
  | record {shared : Shared} {failure : Failure} : shared.failure = none →
      TaskStep files path (shared, .failed failure)
        ({ shared with failure := some failure }, .recorded)
  | drop {shared : Shared} {failure : Failure} : shared.failure.isSome →
      TaskStep files path (shared, .failed failure) (shared, .ended)
  | cancel {shared : Shared} :
      TaskStep files path (shared, .recorded) ({ shared with isCanceled := true }, .ended)

inductive Step (files : FileSystem) : LoadGroup → LoadGroup → Prop
  | task {path : Text} {shared shared' : Shared} {stage stage' : Stage}
      {before behind : List (Text × Stage)} :
      TaskStep files path (shared, stage) (shared', stage') →
      Step files ⟨shared, before ++ (path, stage) :: behind⟩
        ⟨shared', before ++ (path, stage') :: behind⟩

def Reaches (files : FileSystem) : LoadGroup → LoadGroup → Prop :=
  Relation.ReflTransGen (Step files)

namespace Stage

def file? : Stage → Option LoadedFile
  | .loaded file => some file
  | _ => none

def isFinal : Stage → Bool
  | .loaded _ => true
  | .ended => true
  | _ => false

def rank : Stage → Nat
  | .waiting => 4
  | .started => 3
  | .made _ => 2
  | .failed _ => 2
  | .recorded => 1
  | .loaded _ => 0
  | .ended => 0

end Stage

def IsComplete (group : LoadGroup) : Prop := ∀ task ∈ group.tasks, task.2.isFinal = true

def result (group : LoadGroup) : Except Failure (List LoadedFile) :=
  match group.shared.failure with
  | some failure => .error failure
  | none => .ok (group.tasks.filterMap fun task => task.2.file?)

variable {files : FileSystem} {start : Loader} {paths : List Text} {group next : LoadGroup}

theorem TaskStep.rank_lt {path : Text} {shared shared' : Shared} {stage stage' : Stage}
    (step : TaskStep files path (shared, stage) (shared', stage')) : stage'.rank < stage.rank := by
  cases step <;> simp [Stage.rank]

theorem TaskStep.exists_of_not_final (files : FileSystem) (path : Text) (shared : Shared)
    {stage : Stage} (unfinished : stage.isFinal = false) :
    ∃ shared' stage', TaskStep files path (shared, stage) (shared', stage') := by
  cases stage with
  | waiting =>
      cases canceled : shared.isCanceled with
      | false => exact ⟨_, _, .start canceled⟩
      | true => exact ⟨_, _, .skip canceled⟩
  | started =>
      cases read : textAt files path with
      | error error => exact ⟨_, _, .unreadable read⟩
      | ok text =>
          cases found : shared.loader.lookup? (absolutePath files path) (Hash.hash text) with
          | some file => exact ⟨_, _, .find read found⟩
          | none =>
              cases made :
                FileContent.ofText Timestamp.zero path (absolutePath files path) text with
              | error error => exact ⟨_, _, .refuse read found made⟩
              | ok content => exact ⟨_, _, .make read found made⟩
  | made content => exact ⟨_, _, .keep rfl⟩
  | failed failure =>
      cases known : shared.failure with
      | none => exact ⟨_, _, .record known⟩
      | some other => exact ⟨_, _, .drop (by simp [known])⟩
  | recorded => exact ⟨_, _, .cancel⟩
  | loaded => simp [Stage.isFinal] at unfinished
  | ended => simp [Stage.isFinal] at unfinished

def rank (group : LoadGroup) : Nat := (group.tasks.map fun task => task.2.rank).sum

theorem Step.rank_lt (step : Step files group next) : next.rank < group.rank := by
  obtain ⟨task⟩ := step
  simpa [rank] using task.rank_lt

theorem wellFounded_step (files : FileSystem) :
    WellFounded fun next group => Step files group next :=
  Subrelation.wf Step.rank_lt (measure rank).wf

theorem exists_step (incomplete : ¬group.IsComplete) : ∃ next, Step files group next := by
  obtain ⟨shared, tasks⟩ := group
  simp only [IsComplete, not_forall, Bool.not_eq_true] at incomplete
  obtain ⟨⟨path, stage⟩, member, unfinished⟩ := incomplete
  obtain ⟨before, behind, rfl⟩ := List.append_of_mem member
  obtain ⟨shared', stage', step⟩ := TaskStep.exists_of_not_final files path shared unfinished
  exact ⟨_, .task step⟩

abbrev Allows (files : FileSystem) (start : Loader) (path : Text)
    (result : Except LoadError LoadedFile) : Prop :=
  Yields files Set.univ start path result

/-- What holds of a load at its stage, whatever the others have done. -/
def Sound (files : FileSystem) (start : Loader) (shared : Shared) (path : Text) : Stage → Prop
  | .waiting => True
  | .started => True
  | .made content => ∃ text now, textAt files path = .ok text ∧
      start.lookup? (absolutePath files path) (Hash.hash text) = none ∧
        FileContent.ofText now path (absolutePath files path) text = .ok content
  | .loaded file => Allows files start path (.ok file) ∧
      ∃ kept, shared.loader.cache.get? (absolutePath files path) = some kept ∧
        Allows files start path (.ok kept)
  | .failed (.load error) => Allows files start path (.error error)
  | .failed .canceled => shared.isCanceled = true
  | .recorded => shared.failure.isSome = true
  | .ended => shared.failure.isSome = true

/-- What the loads have in common may only change like this. -/
structure Shared.Extends (files : FileSystem) (start : Loader) (shared shared' : Shared) :
    Prop where
  failure : shared.failure.isSome = true → shared'.failure.isSome = true
  canceled : shared.isCanceled = true → shared'.isCanceled = true
  keeps : ∀ path kept, shared.loader.cache.get? (absolutePath files path) = some kept →
    Allows files start path (.ok kept) →
      ∃ later, shared'.loader.cache.get? (absolutePath files path) = some later ∧
        Allows files start path (.ok later)

structure Consistent (files : FileSystem) (start : Loader) (paths : List Text)
    (group : LoadGroup) : Prop where
  order : group.tasks.map Prod.fst = paths
  since : Since files Set.univ start group.shared.loader
  leaves : ∀ other, (∀ path ∈ paths, absolutePath files path ≠ other) →
    group.shared.loader.cache.get? other = start.cache.get? other
  sound : ∀ task ∈ group.tasks, Sound files start group.shared task.1 task.2
  canceled : group.shared.isCanceled = true → group.shared.failure.isSome = true
  failed : ∀ failure, group.shared.failure = some failure →
    ∃ path ∈ paths, ∃ error, failure = .load error ∧ Allows files start path (.error error)

theorem Shared.Extends.refl (shared : Shared) : shared.Extends files start shared :=
  ⟨id, id, fun _ kept found allowed => ⟨kept, found, allowed⟩⟩

theorem Sound.mono {shared shared' : Shared} {path : Text} {stage : Stage}
    (sound : Sound files start shared path stage) (extends' : shared.Extends files start shared') :
    Sound files start shared' path stage := by
  cases stage with
  | waiting => trivial
  | started => trivial
  | made => exact sound
  | loaded =>
      obtain ⟨allowed, kept, found, allowedKept⟩ := sound
      exact ⟨allowed, extends'.keeps path kept found allowedKept⟩
  | failed failure =>
      cases failure with
      | load => exact sound
      | canceled => exact extends'.canceled sound
  | recorded => exact extends'.failure sound
  | ended => exact extends'.failure sound

theorem allows_of_samePath {path other : Text} {file : LoadedFile}
    (allowed : Allows files start path (.ok file))
    (same : absolutePath files path = absolutePath files other) :
    Allows files start other (.ok file) := by
  cases allowed with
  | kept read found => exact .kept (textAt_eq_ok.mpr (same ▸ textAt_eq_ok.mp read)) (same ▸ found)
  | made read missing inside made stands =>
      exact .made (textAt_eq_ok.mpr (same ▸ textAt_eq_ok.mp read)) (same ▸ missing) inside
        (FileContent.ofText_path (same ▸ made) other) (same ▸ stands)

theorem Shared.extends_store {shared : Shared} {path : Text} {file : LoadedFile}
    (stands : file.path = absolutePath files path)
    (allowed : Allows files start path (.ok file)) :
    shared.Extends files start { shared with loader := shared.loader.store file } := by
  refine ⟨id, id, fun other kept found allowedKept => ?_⟩
  change ∃ later, (shared.loader.store file).cache.get? _ = _ ∧ _
  rw [store, OrderedMap.get?_set]
  split
  next same => exact ⟨file, rfl, allows_of_samePath allowed (stands.symm.trans same.symm)⟩
  next => exact ⟨kept, found, allowedKept⟩

/-- What a load does is sound, and takes nothing away that other loads rely on. -/
theorem TaskStep.preserves {path : Text} {shared shared' : Shared} {stage stage' : Stage}
    (step : TaskStep files path (shared, stage) (shared', stage'))
    (since : Since files Set.univ start shared.loader)
    (sound : Sound files start shared path stage) :
    Sound files start shared' path stage' ∧ shared.Extends files start shared' ∧
      Since files Set.univ start shared'.loader := by
  cases step with
  | start running => exact ⟨trivial, .refl _, since⟩
  | skip canceled => exact ⟨canceled, .refl _, since⟩
  | unreadable read => exact ⟨.unreadable read, .refl _, since⟩
  | find read found =>
      have allowed := since.kept read found
      exact ⟨⟨allowed, _, (lookup?_eq_some.mp found).1, allowed⟩, .refl _, since⟩
  | refuse read absent refused =>
      have missing := since.missing (textAt_eq_ok.mp read) absent
      exact ⟨.refused read missing refused, .refl _, since⟩
  | @make _ now text content read absent made =>
      have missing := since.missing (textAt_eq_ok.mp read) absent
      exact ⟨⟨text, now, read, missing, made⟩, .refl _, since⟩
  | @keep shared content file isFile =>
      obtain ⟨text, now, read, missing, made⟩ := sound
      have stands : file.path = absolutePath files path := by rw [isFile]
      have holds : FileContent.ofText now path (absolutePath files path) text =
          .ok file.toFileContent := by rw [isFile, made]
      have allowed : Allows files start path (.ok file) :=
        .made read missing (Set.mem_univ now) holds stands
      have madeFrom : MadeFrom files Set.univ (absolutePath files path) text file :=
        ⟨stands, textAt_eq_ok.mp read, now, Set.mem_univ now, path, holds⟩
      refine ⟨⟨allowed, file, ?_, allowed⟩, Shared.extends_store stands allowed,
        since.store madeFrom missing⟩
      change (shared.loader.store file).cache.get? _ = _
      rw [store, OrderedMap.get?_set, if_pos stands.symm]
  | record unknown => exact ⟨rfl, ⟨fun _ => rfl, id, fun _ kept found allowed =>
      ⟨kept, found, allowed⟩⟩, since⟩
  | drop known => exact ⟨known, .refl _, since⟩
  | cancel => exact ⟨sound, ⟨id, fun _ => rfl, fun _ kept found allowed =>
      ⟨kept, found, allowed⟩⟩, since⟩

theorem TaskStep.leaves {path other : Text} {shared shared' : Shared} {stage stage' : Stage}
    (step : TaskStep files path (shared, stage) (shared', stage'))
    (different : absolutePath files path ≠ other) :
    shared'.loader.cache.get? other = shared.loader.cache.get? other := by
  cases step with
  | keep isFile =>
      change (store _ _).cache.get? other = _
      rw [store, OrderedMap.get?_set, isFile, if_neg different.symm]
  | _ => rfl

theorem consistent_ofPaths (files : FileSystem) (start : Loader) (paths : List Text) :
    Consistent files start paths (ofPaths start paths) where
  order := by simp [ofPaths, Function.comp_def]
  since := Since.refl files Set.univ start
  leaves := fun _ _ => rfl
  sound := by
    intro task member
    obtain ⟨path, _, rfl⟩ := List.mem_map.mp member
    trivial
  canceled := by simp [ofPaths]
  failed := by simp [ofPaths]

theorem Consistent.step (consistent : Consistent files start paths group)
    (step : Step files group next) : Consistent files start paths next := by
  obtain ⟨step⟩ := step
  rename_i path shared shared' stage stage' before behind
  have order := consistent.order
  have sound := consistent.sound (path, stage) (by simp)
  obtain ⟨soundAfter, extends', since⟩ := step.preserves consistent.since sound
  have member : path ∈ paths := by simp [← order]
  refine ⟨by simpa using order, since, ?_, ?_, ?_, ?_⟩
  · intro other apart
    exact (step.leaves (apart path member)).trans (consistent.leaves other apart)
  · intro task inside
    rcases List.mem_append.mp inside with earlier | later
    · exact (consistent.sound task (List.mem_append_left _ earlier)).mono extends'
    · rcases List.mem_cons.mp later with rfl | later
      · exact soundAfter
      · exact (consistent.sound task (by simp [later])).mono extends'
  · intro canceled
    have before := consistent.canceled
    cases step <;> simp_all [Sound]
  · intro failure known
    have before := consistent.failed failure
    cases step with
    | record unknown =>
        -- A canceled group has recorded a failure, so what is recorded first is no cancellation.
        obtain rfl := Option.some.inj known
        rename_i first
        cases first with
        | load error => exact ⟨path, member, error, rfl, sound⟩
        | canceled =>
            have isKnown := consistent.canceled sound
            simp [unknown] at isKnown
    | _ => exact before known

theorem Consistent.reaches (consistent : Consistent files start paths group)
    (run : Reaches files group next) : Consistent files start paths next := by
  induction run with
  | refl => exact consistent
  | tail _ step ih => exact ih.step step

def alone (now : Timestamp) (files : FileSystem) (start : Loader) (path : Text) :
    Except LoadError LoadedFile :=
  (start.load now files path).2.map LoadedFile.timeless

theorem alone_of_allows {path : Text} {result : Except LoadError LoadedFile}
    (allowed : Allows files start path result) (now : Timestamp) :
    alone now files start path = result.map LoadedFile.timeless :=
  (allowed.timeless_eq now).symm

def schemasOf : Except LoadError LoadedFile → List Schema
  | .ok file => file.schemas
  | .error _ => []

/-- What a group has come to, told without the order in which its loads ran. -/
structure Settles (now : Timestamp) (files : FileSystem) (start : Loader) (paths : List Text)
    (final : LoadGroup) : Prop where
  succeeds : (∃ loaded, final.result = .ok loaded) ↔
    ∀ path ∈ paths, ∃ file, (start.load now files path).2 = .ok file
  returns : ∀ loaded, final.result = .ok loaded →
    List.Forall₂ (fun path file => alone now files start path = .ok file.timeless) paths loaded
  schemas : ∀ loaded, final.result = .ok loaded →
    (loaded.flatMap fun file => file.schemas).map (Schema.madeAt Timestamp.zero) =
      paths.flatMap fun path => schemasOf (alone now files start path)
  keeps : ∀ loaded, final.result = .ok loaded → ∀ path ∈ paths,
    ∃ kept, final.shared.loader.cache.get? (absolutePath files path) = some kept ∧
      alone now files start path = .ok kept.timeless
  leaves : ∀ other, (∀ path ∈ paths, absolutePath files path ≠ other) →
    final.shared.loader.cache.get? other = start.cache.get? other
  fails : ∀ failure, final.result = .error failure →
    ∃ path ∈ paths, ∃ error, failure = .load error ∧
      (start.load now files path).2 = .error error

theorem load_eq_error {now : Timestamp} {path : Text} {error : LoadError} :
    (start.load now files path).2 = .error error ↔ alone now files start path = .error error := by
  rw [alone]
  cases (start.load now files path).2 <;> simp [Except.map]

theorem load_eq_ok {now : Timestamp} {path : Text} :
    (∃ file, (start.load now files path).2 = .ok file) ↔
      ∃ file, alone now files start path = .ok file := by
  rw [alone]
  cases (start.load now files path).2 <;> simp [Except.map]

theorem Consistent.loaded (consistent : Consistent files start paths group)
    (complete : group.IsComplete) (succeeded : group.shared.failure = none) :
    ∀ task ∈ group.tasks, ∃ file, task.2 = .loaded file ∧
      Allows files start task.1 (.ok file) ∧
      ∃ kept, group.shared.loader.cache.get? (absolutePath files task.1) = some kept ∧
        Allows files start task.1 (.ok kept) := by
  rintro ⟨path, stage⟩ member
  have final := complete _ member
  have sound := consistent.sound _ member
  cases stage with
  | loaded file => exact ⟨file, rfl, sound.1, sound.2⟩
  | ended => simp [Sound, succeeded] at sound
  | _ => simp [Stage.isFinal] at final

theorem forall₂_filterMap {related : Text → LoadedFile → Prop} {tasks : List (Text × Stage)}
    (loaded : ∀ task ∈ tasks, ∃ file, task.2 = .loaded file ∧ related task.1 file) :
    List.Forall₂ related (tasks.map Prod.fst) (tasks.filterMap fun task => task.2.file?) := by
  induction tasks with
  | nil => exact .nil
  | cons task tasks ih =>
      rw [List.forall_mem_cons] at loaded
      obtain ⟨⟨file, isLoaded, holds⟩, later⟩ := loaded
      rw [List.map_cons, List.filterMap_cons, isLoaded]
      exact .cons holds (ih later)

theorem flatMap_schemas {now : Timestamp} {loaded : List LoadedFile}
    (returns : List.Forall₂ (fun path file => alone now files start path = .ok file.timeless) paths
      loaded) :
    (loaded.flatMap fun file => file.schemas).map (Schema.madeAt Timestamp.zero) =
      paths.flatMap fun path => schemasOf (alone now files start path) := by
  induction returns with
  | nil => rfl
  | cons same _ ih =>
      rw [List.flatMap_cons, List.flatMap_cons, List.map_append, ih, same]
      rfl

theorem result_eq_ok {loaded : List LoadedFile} : group.result = .ok loaded ↔
    group.shared.failure = none ∧ group.tasks.filterMap (fun task => task.2.file?) = loaded := by
  rw [result]
  cases group.shared.failure <;> simp

theorem result_eq_error {failure : Failure} :
    group.result = .error failure ↔ group.shared.failure = some failure := by
  rw [result]
  cases group.shared.failure <;> simp

theorem Consistent.fails (consistent : Consistent files start paths group) (now : Timestamp)
    {failure : Failure} (returned : group.result = .error failure) :
    ∃ path ∈ paths, ∃ error, failure = .load error ∧
      (start.load now files path).2 = .error error := by
  obtain ⟨path, member, error, rfl, allowed⟩ :=
    consistent.failed failure (result_eq_error.mp returned)
  exact ⟨path, member, error, rfl, load_eq_error.mpr (alone_of_allows allowed now)⟩

theorem Consistent.returns (consistent : Consistent files start paths group)
    (complete : group.IsComplete) (now : Timestamp) {loaded : List LoadedFile}
    (returned : group.result = .ok loaded) :
    List.Forall₂ (fun path file => alone now files start path = .ok file.timeless) paths
      loaded := by
  obtain ⟨succeeded, rfl⟩ := result_eq_ok.mp returned
  rw [← consistent.order]
  refine forall₂_filterMap fun task member => ?_
  obtain ⟨file, isLoaded, allowed, _⟩ := consistent.loaded complete succeeded task member
  exact ⟨file, isLoaded, alone_of_allows allowed now⟩

theorem Consistent.keeps (consistent : Consistent files start paths group)
    (complete : group.IsComplete) (now : Timestamp) {loaded : List LoadedFile}
    (returned : group.result = .ok loaded) {path : Text} (member : path ∈ paths) :
    ∃ kept, group.shared.loader.cache.get? (absolutePath files path) = some kept ∧
      alone now files start path = .ok kept.timeless := by
  rw [← consistent.order] at member
  obtain ⟨task, inside, rfl⟩ := List.mem_map.mp member
  obtain ⟨_, _, _, kept, found, allowed⟩ :=
    consistent.loaded complete (result_eq_ok.mp returned).1 task inside
  exact ⟨kept, found, alone_of_allows allowed now⟩

theorem Consistent.succeeds (consistent : Consistent files start paths group)
    (complete : group.IsComplete) (now : Timestamp) :
    (∃ loaded, group.result = .ok loaded) ↔
      ∀ path ∈ paths, ∃ file, (start.load now files path).2 = .ok file := by
  constructor
  · rintro ⟨loaded, returned⟩ path member
    obtain ⟨kept, _, same⟩ := consistent.keeps complete now returned member
    exact load_eq_ok.mpr ⟨_, same⟩
  · intro succeed
    cases returned : group.result with
    | ok loaded => exact ⟨loaded, rfl⟩
    | error failure =>
        obtain ⟨path, member, error, _, failed⟩ := consistent.fails now returned
        obtain ⟨file, loaded⟩ := succeed path member
        simp [failed] at loaded

theorem Consistent.settles (consistent : Consistent files start paths group)
    (complete : group.IsComplete) (now : Timestamp) : Settles now files start paths group where
  succeeds := consistent.succeeds complete now
  returns _ returned := consistent.returns complete now returned
  schemas _ returned := flatMap_schemas (consistent.returns complete now returned)
  keeps _ returned _ member := consistent.keeps complete now returned member
  leaves := consistent.leaves
  fails _ returned := consistent.fails now returned

theorem reaches_load (now : Timestamp) (files : FileSystem) (path : Text) (shared : Shared)
    (before behind : List (Text × Stage)) :
    ∃ shared' stage, Reaches files ⟨shared, before ++ (path, .started) :: behind⟩
        ⟨shared', before ++ (path, stage) :: behind⟩ ∧
      shared'.loader = (shared.loader.load now files path).1 ∧
      match (shared.loader.load now files path).2 with
      | .ok file => stage = .loaded file ∧ shared'.failure = shared.failure
      | .error error => stage = .ended ∧
          shared'.failure = shared.failure.or (some (.load error)) := by
  have single {shared' : Shared} {stage stage' : Stage}
      (step : TaskStep files path (shared, stage) (shared', stage')) :
      Reaches files ⟨shared, before ++ (path, stage) :: behind⟩
        ⟨shared', before ++ (path, stage') :: behind⟩ := .single (.task step)
  have fail (error : LoadError)
      (step : TaskStep files path (shared, .started) (shared, .failed (.load error))) :
      ∃ shared', Reaches files ⟨shared, before ++ (path, .started) :: behind⟩
          ⟨shared', before ++ (path, .ended) :: behind⟩ ∧ shared'.loader = shared.loader ∧
        shared'.failure = shared.failure.or (some (.load error)) := by
    cases known : shared.failure with
    | some first =>
        exact ⟨shared, (single step).tail (.task (.drop (by simp [known]))), rfl, by simp [known]⟩
    | none =>
        exact ⟨_, ((single step).tail (.task (.record known))).tail (.task .cancel), rfl, rfl⟩
  have outcome := loads_load now files shared.loader path
  generalize shared.loader.load now files path = result at outcome
  cases outcome with
  | unreadable read =>
      obtain ⟨shared', run, loader, failure⟩ := fail _ (.unreadable read)
      exact ⟨shared', _, run, loader, rfl, failure⟩
  | kept read found => exact ⟨_, _, single (.find read found), rfl, rfl, rfl⟩
  | refused read missing refused =>
      obtain ⟨shared', run, loader, failure⟩ := fail _ (.refuse read missing refused)
      exact ⟨shared', _, run, loader, rfl, failure⟩
  | made read missing made =>
      exact ⟨_, _, (single (.make read missing made)).tail (.task (.keep rfl)), rfl, rfl, rfl⟩

theorem reaches_started (files : FileSystem) {shared : Shared} (running : shared.isCanceled = false)
    (started : List (Text × Stage)) (paths : List Text) :
    Reaches files ⟨shared, started ++ paths.map fun path => (path, .waiting)⟩
      ⟨shared, started ++ paths.map fun path => (path, .started)⟩ := by
  induction paths generalizing started with
  | nil => exact .refl
  | cons path paths ih =>
      have first : Step files
          ⟨shared, started ++ (path, .waiting) :: paths.map fun path => (path, .waiting)⟩
          ⟨shared, started ++ (path, .started) :: paths.map fun path => (path, .waiting)⟩ :=
        .task (.start running)
      have later := ih (started ++ [(path, .started)])
      rw [List.append_assoc, List.append_assoc] at later
      exact .head first later

theorem reaches_loadAll (now : Timestamp) (files : FileSystem) (shared : Shared)
    (ended : List (Text × Stage)) (paths : List Text) :
    ∃ shared' tasks, Reaches files ⟨shared, ended ++ paths.map fun path => (path, .started)⟩
        ⟨shared', ended ++ tasks⟩ ∧ (∀ task ∈ tasks, task.2.isFinal = true) ∧
      shared'.loader = (shared.loader.loadAll now files paths).1 ∧
      match (shared.loader.loadAll now files paths).2 with
      | .ok loaded => tasks.filterMap (fun task => task.2.file?) = loaded ∧
          shared'.failure = shared.failure
      | .error error => shared'.failure = shared.failure.or (some (.load error)) := by
  induction paths generalizing shared ended with
  | nil => exact ⟨shared, [], .refl, by simp, rfl, rfl, rfl⟩
  | cons path paths ih =>
      obtain ⟨middle, stage, first, loader, ends⟩ :=
        reaches_load now files path shared ended (paths.map fun path => (path, .started))
      obtain ⟨shared', tasks, later, final, loader', ends'⟩ := ih middle (ended ++ [(path, stage)])
      rw [List.append_assoc, List.append_assoc] at later
      rw [loader] at loader' ends'
      rw [loadAll]
      dsimp only
      generalize shared.loader.load now files path = loaded at ends loader' ends' ⊢
      obtain ⟨loaderAfter, loaded⟩ := loaded
      refine ⟨shared', (path, stage) :: tasks, .trans first later, ?_, ?_, ?_⟩
      · refine List.forall_mem_cons.mpr ⟨?_, final⟩
        cases loaded <;> simp only at ends <;> rw [ends.1] <;> rfl
      · split <;> exact loader'
      · dsimp only at ends' ⊢
        generalize loaderAfter.loadAll now files paths = others at ends' ⊢
        obtain ⟨loaderEnd, others⟩ := others
        cases loaded with
        | error error =>
            obtain ⟨_, failed⟩ := ends
            cases others with
            | error other =>
                -- the first failure is kept
                rw [ends', failed, Option.or_assoc]
                rfl
            | ok others => exact ends'.2.trans failed
        | ok file =>
            obtain ⟨rfl, same⟩ := ends
            cases others with
            | error other => rw [ends', same]
            | ok others => exact ⟨congrArg (List.cons file) ends'.1, ends'.2.trans same⟩

theorem exists_run_loadAll (now : Timestamp) (files : FileSystem) (start : Loader)
    (paths : List Text) :
    ∃ final, Reaches files (ofPaths start paths) final ∧ final.IsComplete ∧
      final.shared.loader = (start.loadAll now files paths).1 ∧
      final.result = (start.loadAll now files paths).2.mapError .load := by
  obtain ⟨shared, tasks, run, final, loader, ends⟩ :=
    reaches_loadAll now files { loader := start } [] paths
  refine ⟨⟨shared, tasks⟩, .trans (reaches_started files rfl [] paths) run, final, loader, ?_⟩
  rw [result]
  generalize (start.loadAll now files paths).2 = loaded at ends ⊢
  cases loaded with
  | ok loaded =>
      obtain ⟨rfl, unfailed⟩ := ends
      rw [unfailed]
      rfl
  | error error =>
      rw [ends]
      rfl

/--
The files of a group come out as if each was loaded on its own. A group ends after finitely many
steps, whichever load does the next one, and never stops before all of its loads have ended;
loading all files one after another is one of its runs.
-/
theorem settles_of_reaches (now : Timestamp) (files : FileSystem) (start : Loader)
    (paths : List Text) :
    (WellFounded fun next group => Step files group next) ∧
      (∀ group : LoadGroup, ¬group.IsComplete → ∃ next, Step files group next) ∧
      (∀ final, Reaches files (ofPaths start paths) final → final.IsComplete →
        Settles now files start paths final) ∧
      ∃ final, Reaches files (ofPaths start paths) final ∧ final.IsComplete ∧
        final.shared.loader = (start.loadAll now files paths).1 ∧
        final.result = (start.loadAll now files paths).2.mapError .load :=
  ⟨wellFounded_step files, fun _ => exists_step,
    fun _ run complete => ((consistent_ofPaths files start paths).reaches run).settles complete now,
    exists_run_loadAll now files start paths⟩

theorem settles_of_reaches_twice :
    ∃ final loaded, Reaches (LoaderSession.noteFiles (utf8 "$type: A\n"))
        (ofPaths {} [utf8 "a.yaml", utf8 "./a.yaml"]) final ∧ final.IsComplete ∧
      final.result = .ok loaded ∧ loaded.map LoadedFile.serial = [0, 1] ∧
      Settles Timestamp.zero (LoaderSession.noteFiles (utf8 "$type: A\n")) {}
        [utf8 "a.yaml", utf8 "./a.yaml"] final := by
  let files := LoaderSession.noteFiles (utf8 "$type: A\n")
  have read : textAt files (utf8 "a.yaml") = .ok (utf8 "$type: A\n") := by decide +kernel
  have readAgain : textAt files (utf8 "./a.yaml") = .ok (utf8 "$type: A\n") := by decide +kernel
  have isMade : (FileContent.ofText Timestamp.zero (utf8 "a.yaml")
      (absolutePath files (utf8 "a.yaml")) (utf8 "$type: A\n")).isOk = true := by decide +kernel
  have same : absolutePath files (utf8 "./a.yaml") = absolutePath files (utf8 "a.yaml") := by
    decide +kernel
  obtain ⟨content, made⟩ : ∃ content, FileContent.ofText Timestamp.zero (utf8 "a.yaml")
      (absolutePath files (utf8 "a.yaml")) (utf8 "$type: A\n") = .ok content := by
    cases made : FileContent.ofText Timestamp.zero (utf8 "a.yaml")
        (absolutePath files (utf8 "a.yaml")) (utf8 "$type: A\n") with
    | ok content => exact ⟨content, rfl⟩
    | error => simp [made, Except.isOk, Except.toBool] at isMade
  have madeAgain : FileContent.ofText Timestamp.zero (utf8 "./a.yaml")
      (absolutePath files (utf8 "./a.yaml")) (utf8 "$type: A\n") = .ok content :=
    FileContent.ofText_path (same ▸ made) (utf8 "./a.yaml")
  have begun := reaches_started files (show ({ loader := {} } : Shared).isCanceled = false from rfl)
    [] [utf8 "a.yaml", utf8 "./a.yaml"]
  -- Both find nothing kept before either of them keeps its file.
  have first : TaskStep files (utf8 "a.yaml") ({ loader := {} }, .started)
      ({ loader := {} }, .made content) := .make read rfl made
  have second : TaskStep files (utf8 "./a.yaml") ({ loader := {} }, .started)
      ({ loader := {} }, .made content) := .make readAgain rfl madeAgain
  have run := (((begun.tail (@Step.task _ _ _ _ _ _ [] _ first)).tail
    (@Step.task _ _ _ _ _ _ [(utf8 "a.yaml", .made content)] [] second)).tail
    (@Step.task _ _ _ _ _ _ [] _ (.keep rfl))).tail
    (@Step.task _ _ _ _ _ _ [(utf8 "a.yaml", .loaded _)] [] (.keep rfl))
  refine ⟨_, _, run, ?complete, rfl, rfl, ?settles⟩
  case complete => simp [IsComplete, Stage.isFinal]
  case settles =>
    exact (settles_of_reaches Timestamp.zero files {} _).2.2.1 _ run
      (by simp [IsComplete, Stage.isFinal])

end LoadGroup

end EntitySchema
