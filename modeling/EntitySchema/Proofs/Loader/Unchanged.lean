import EntitySchema.Proofs.Loader.Transparency

/-!
Loading while the files stay as they are. What loads may return was settled when the first of them
began: what was kept since holds what a load from the start would have read itself, and differs
from it at most in the moment at which it was made.
-/

namespace EntitySchema

def Schema.madeAt (moment : Timestamp) (schema : Schema) : Schema :=
  { schema with createdAt := moment, updatedAt := moment }

theorem Schema.ofRecord_madeAt (now later : Timestamp) (record : Record) :
    ofRecord later record = (ofRecord now record).map (madeAt later) := by
  unfold ofRecord ofDeclarations
  cases Declaration.classify record with
  | error => rfl
  | ok found =>
      dsimp only
      cases Assembly.addAll {} found.2 <;> rfl

namespace FileContent

def madeAt (moment : Timestamp) (content : FileContent) : FileContent :=
  { content with schemas := content.schemas.map (Schema.madeAt moment) }

theorem schemasOf_madeAt (now later : Timestamp) (path : Text) (index : Nat)
    (records : List Record) :
    schemasOf later path index records =
      (schemasOf now path index records).map (List.map (Schema.madeAt later)) := by
  induction records generalizing index with
  | nil => rfl
  | cons record records ih =>
      rw [schemasOf, schemasOf, Schema.ofRecord_madeAt now later, ih]
      cases Schema.ofRecord now record with
      | error => rfl
      | ok => cases schemasOf now path (index + 1) records <;> rfl

theorem ofText_madeAt (now later : Timestamp) (path absolutePath text : Text) :
    ofText later path absolutePath text =
      (ofText now path absolutePath text).map (madeAt later) := by
  unfold ofText
  cases FileFormat.ofPath absolutePath with
  | error => rfl
  | ok format =>
      dsimp only
      cases Record.decode format text with
      | error => rfl
      | ok records =>
          dsimp only
          rw [schemasOf_madeAt now later]
          cases schemasOf now path 0 records <;> rfl

theorem schemasOf_path {now : Timestamp} {path : Text} {index : Nat} {records : List Record}
    {schemas : List Schema} (made : schemasOf now path index records = .ok schemas)
    (other : Text) : schemasOf now other index records = .ok schemas := by
  fun_induction schemasOf now path index records generalizing schemas with
  | case1 => exact made
  | case2 => simp at made
  | case3 => simp at made
  | case4 index record records schema accepted rest found ih =>
      rw [schemasOf, accepted, ih found]
      exact made

theorem ofText_path {now : Timestamp} {path absolutePath text : Text} {content : FileContent}
    (made : ofText now path absolutePath text = .ok content) (other : Text) :
    ofText now other absolutePath text = .ok content := by
  unfold ofText at made ⊢
  split at made
  · simp at made
  next format known =>
    split at made
    · simp at made
    next records decoded =>
      split at made
      · simp at made
      next schemas accepted =>
        rw [schemasOf_path accepted other]
        exact made

theorem hash_of_ofText {now : Timestamp} {path absolutePath text : Text} {content : FileContent}
    (made : ofText now path absolutePath text = .ok content) : content.hash = Hash.hash text :=
  (describes_of_ofText made 0).hash

end FileContent

namespace LoadedFile

def anonymous (file : LoadedFile) : LoadedFile := { file with serial := 0 }

/-- The file without what tells apart two loads, at whatever moments they were. -/
def timeless (file : LoadedFile) : LoadedFile :=
  { file.toFileContent.madeAt Timestamp.zero with path := file.path, serial := 0 }

end LoadedFile

namespace Loader

variable {files : FileSystem} {moments : Set Timestamp} {start loader : Loader}

structure MadeFrom (files : FileSystem) (moments : Set Timestamp) (path text : Text)
    (file : LoadedFile) : Prop where
  stands : file.path = path
  read : files.read path = .ok text
  made : ∃ now ∈ moments, ∃ given, FileContent.ofText now given path text = .ok file.toFileContent

/-- Since the start only such files were kept as hold what stands at their paths. -/
def Since (files : FileSystem) (moments : Set Timestamp) (start loader : Loader) : Prop :=
  ∀ path, loader.cache.get? path = start.cache.get? path ∨
    ∃ text file, loader.cache.get? path = some file ∧ MadeFrom files moments path text file ∧
      start.lookup? path (Hash.hash text) = none

inductive Yields (files : FileSystem) (moments : Set Timestamp) (start : Loader) (path : Text) :
    Except LoadError LoadedFile → Prop
  | unreadable {error : LoadError} : textAt files path = .error error →
      Yields files moments start path (.error error)
  | kept {text : Text} {file : LoadedFile} : textAt files path = .ok text →
      start.lookup? (absolutePath files path) (Hash.hash text) = some file →
      Yields files moments start path (.ok file)
  | refused {now : Timestamp} {text : Text} {error : LoadError} :
      textAt files path = .ok text →
      start.lookup? (absolutePath files path) (Hash.hash text) = none →
      FileContent.ofText now path (absolutePath files path) text = .error error →
      Yields files moments start path (.error error)
  | made {now : Timestamp} {text : Text} {file : LoadedFile} : textAt files path = .ok text →
      start.lookup? (absolutePath files path) (Hash.hash text) = none →
      now ∈ moments →
      FileContent.ofText now path (absolutePath files path) text = .ok file.toFileContent →
      file.path = absolutePath files path →
      Yields files moments start path (.ok file)

theorem textAt_eq_ok {path text : Text} :
    textAt files path = .ok text ↔ files.read (absolutePath files path) = .ok text := by
  unfold textAt readText
  cases files.read (absolutePath files path) <;> simp

namespace Since

theorem refl (files : FileSystem) (moments : Set Timestamp) (start : Loader) :
    Since files moments start start := fun _ => .inl rfl

theorem lookup? (since : Since files moments start loader) {path text : Text}
    (read : files.read path = .ok text) :
    loader.lookup? path (Hash.hash text) = start.lookup? path (Hash.hash text) ∨
      start.lookup? path (Hash.hash text) = none ∧ ∃ file,
        loader.lookup? path (Hash.hash text) = some file ∧
          MadeFrom files moments path text file := by
  rcases since path with same | ⟨other, file, kept, made, missing⟩
  · exact .inl (by rw [Loader.lookup?, same, Loader.lookup?])
  · obtain rfl := Except.ok.inj (made.read.symm.trans read)
    obtain ⟨now, _, given, content⟩ := made.made
    exact .inr ⟨missing, file,
      Loader.lookup?_eq_some.mpr ⟨kept, FileContent.hash_of_ofText content⟩, made⟩

theorem missing (since : Since files moments start loader) {path text : Text}
    (read : files.read path = .ok text)
    (absent : loader.lookup? path (Hash.hash text) = none) :
    start.lookup? path (Hash.hash text) = none := by
  rcases since.lookup? read with same | ⟨missing, _⟩
  · rw [← same, absent]
  · exact missing

theorem kept (since : Since files moments start loader) {path text : Text} {file : LoadedFile}
    (read : textAt files path = .ok text)
    (found : loader.lookup? (absolutePath files path) (Hash.hash text) = some file) :
    Yields files moments start path (.ok file) := by
  rcases since.lookup? (textAt_eq_ok.mp read) with same | ⟨missing, other, foundAgain, made⟩
  · exact .kept read (same.symm.trans found)
  · obtain rfl := Option.some.inj (foundAgain.symm.trans found)
    obtain ⟨now, inside, given, content⟩ := made.made
    exact .made read missing inside (FileContent.ofText_path content path) made.stands

theorem store (since : Since files moments start loader) {path text : Text} {file : LoadedFile}
    (made : MadeFrom files moments path text file)
    (missing : start.lookup? path (Hash.hash text) = none) :
    Since files moments start (loader.store file) := by
  intro other
  rw [Loader.store, OrderedMap.get?_set, made.stands]
  split
  next same => exact .inr ⟨text, file, rfl, same ▸ made, same ▸ missing⟩
  next => exact since other

theorem load (since : Since files moments start loader) {now : Timestamp} (moment : now ∈ moments)
    (path : Text) :
    Yields files moments start path (loader.load now files path).2 ∧
      Since files moments start (loader.load now files path).1 := by
  have outcome := loads_load now files loader path
  generalize loader.load now files path = result at outcome
  cases outcome with
  | unreadable read => exact ⟨.unreadable read, since⟩
  | kept read found => exact ⟨since.kept read found, since⟩
  | refused read absent refused =>
      exact ⟨.refused read (since.missing (textAt_eq_ok.mp read) absent) refused, since⟩
  | made read absent made =>
      have missing := since.missing (textAt_eq_ok.mp read) absent
      exact ⟨.made read missing moment made rfl,
        since.store ⟨rfl, textAt_eq_ok.mp read, now, moment, path, made⟩ missing⟩

end Since

theorem load_timeless (now later : Timestamp) (files : FileSystem) (loader : Loader) (path : Text) :
    (loader.load later files path).2.map LoadedFile.timeless =
      (loader.load now files path).2.map LoadedFile.timeless := by
  rw [load_snd, load_snd]
  generalize textAt files path = read
  cases read with
  | error => rw [Except.bind, Except.bind]
  | ok text =>
      rw [Except.bind, Except.bind]
      generalize loader.lookup? (absolutePath files path) (Hash.hash text) = found
      cases found with
      | some => simp only [Except.map]
      | none =>
          dsimp only
          rw [FileContent.ofText_madeAt now later]
          generalize FileContent.ofText now path (absolutePath files path) text = made
          cases made with
          | error => simp only [Except.map]
          | ok content =>
              simp only [Except.map, LoadedFile.timeless, FileContent.madeAt, List.map_map]
              rfl

namespace Yields

variable {path : Text} {result : Except LoadError LoadedFile}

theorem exists_load (yields : Yields files moments start path result) (now : Timestamp) :
    ∃ moment, (moment ∈ moments ∨ moment = now) ∧
      result.map LoadedFile.anonymous =
        (start.load moment files path).2.map LoadedFile.anonymous := by
  simp only [load_snd]
  cases yields with
  | unreadable read => exact ⟨now, .inr rfl, by rw [read]; rfl⟩
  | kept read found => exact ⟨now, .inr rfl, by rw [read, Except.bind, found]⟩
  | @refused moment text error read missing refused =>
      refine ⟨now, .inr rfl, ?_⟩
      rw [read, Except.bind, missing, FileContent.ofText_madeAt moment, refused]
      rfl
  | @made moment text file read missing inside made stands =>
      refine ⟨moment, .inl inside, ?_⟩
      rw [read, Except.bind, missing, made]
      simp [Except.map, LoadedFile.anonymous, stands]

theorem timeless_eq (yields : Yields files moments start path result) (now : Timestamp) :
    result.map LoadedFile.timeless = (start.load now files path).2.map LoadedFile.timeless := by
  obtain ⟨moment, _, same⟩ := yields.exists_load now
  have strip (loaded : Except LoadError LoadedFile) : loaded.map LoadedFile.timeless =
      (loaded.map LoadedFile.anonymous).map LoadedFile.timeless := by
    cases loaded <;> rfl
  rw [strip, same, ← strip, load_timeless now moment]

end Yields

end Loader

end EntitySchema
