import EntitySchema.Proofs.Files.Path
import EntitySchema.Proofs.OrderedMap
import Mathlib.Data.Set.Function

/-!
The cache of a loader cannot be seen from outside. Whatever was written, removed, loaded and
cleared before, a load returns what a loader without a cache would return, as long as no two
contents that were read have the same hash.
-/

namespace EntitySchema

namespace Schema

theorem ofRecord_later {now : Timestamp} {record : Record} {schema : Schema}
    (accepted : ofRecord now record = .ok schema) (later : Timestamp) :
    ofRecord later record = .ok { schema with createdAt := later, updatedAt := later } := by
  unfold ofRecord ofDeclarations at accepted ⊢
  cases classified : Declaration.classify record with
  | error error => simp [classified] at accepted
  | ok found =>
      cases run : Assembly.addAll {} found.2 with
      | error error => simp [classified, run] at accepted
      | ok assembly =>
          simp only [classified, run, Except.ok.injEq] at accepted ⊢
          rw [← accepted]

end Schema

structure LoadedFile.Describes (file : LoadedFile) (absolutePath text : Text) : Prop where
  path : file.path = absolutePath
  hash : file.hash = Hash.hash text
  records : ∃ format, FileFormat.ofPath absolutePath = .ok format ∧
    Record.decode format text = .ok file.records
  schemas : List.Forall₂ (fun record schema => ∃ moment, Schema.ofRecord moment record = .ok schema)
    file.records file.schemas

namespace FileContent

theorem schemasOf_eq_ok {now : Timestamp} {path : Text} {index : Nat} {records : List Record}
    {schemas : List Schema} (made : schemasOf now path index records = .ok schemas) :
    List.Forall₂ (fun record schema => ∃ moment, Schema.ofRecord moment record = .ok schema)
      records schemas := by
  fun_induction schemasOf now path index records generalizing schemas with
  | case1 =>
      obtain rfl := Except.ok.inj made
      exact .nil
  | case2 => simp at made
  | case3 => simp at made
  | case4 index record records schema accepted rest found ih =>
      obtain rfl := Except.ok.inj made
      exact .cons ⟨now, accepted⟩ (ih found)

theorem exists_schemasOf {records : List Record} {schemas : List Schema}
    (accepted : List.Forall₂
      (fun record schema => ∃ moment, Schema.ofRecord moment record = .ok schema) records schemas)
    (now : Timestamp) (path : Text) (index : Nat) :
    ∃ others, schemasOf now path index records = .ok others := by
  induction accepted generalizing index with
  | nil => exact ⟨[], rfl⟩
  | cons first _ ih =>
      obtain ⟨moment, accepted⟩ := first
      obtain ⟨others, made⟩ := ih (index + 1)
      exact ⟨_, by rw [schemasOf, Schema.ofRecord_later accepted now, made]⟩

theorem describes_of_ofText {now : Timestamp} {path absolutePath text : Text}
    {content : FileContent} (made : ofText now path absolutePath text = .ok content)
    (serial : Nat) :
    LoadedFile.Describes { content with path := absolutePath, serial := serial } absolutePath
      text := by
  unfold ofText at made
  split at made
  · simp at made
  next format known =>
    split at made
    · simp at made
    next records decoded =>
      split at made
      · simp at made
      next schemas accepted =>
        obtain rfl := Except.ok.inj made
        exact ⟨rfl, rfl, ⟨format, known, decoded⟩, schemasOf_eq_ok accepted⟩

theorem exists_ofText {file : LoadedFile} {absolutePath text : Text}
    (describes : file.Describes absolutePath text) (now : Timestamp) (path : Text) :
    ∃ content, ofText now path absolutePath text = .ok content := by
  obtain ⟨format, known, decoded⟩ := describes.records
  obtain ⟨schemas, made⟩ := exists_schemasOf describes.schemas now path 0
  simp only [ofText, known, decoded, made]
  exact ⟨_, rfl⟩

end FileContent

namespace Loader

def absolutePath (files : FileSystem) (path : Text) : Text :=
  Path.absolute files.workingDirectory (Path.clean path)

def textAt (files : FileSystem) (path : Text) : Except LoadError Text :=
  readText files path (absolutePath files path)

inductive Loads (now : Timestamp) (files : FileSystem) (loader : Loader) (path : Text) :
    Loader × Except LoadError LoadedFile → Prop
  | unreadable {error : LoadError} : textAt files path = .error error →
      Loads now files loader path (loader, .error error)
  | kept {text : Text} {file : LoadedFile} : textAt files path = .ok text →
      loader.lookup? (absolutePath files path) (Hash.hash text) = some file →
      Loads now files loader path (loader, .ok file)
  | refused {text : Text} {error : LoadError} : textAt files path = .ok text →
      loader.lookup? (absolutePath files path) (Hash.hash text) = none →
      FileContent.ofText now path (absolutePath files path) text = .error error →
      Loads now files loader path (loader, .error error)
  | made {text : Text} {content : FileContent} : textAt files path = .ok text →
      loader.lookup? (absolutePath files path) (Hash.hash text) = none →
      FileContent.ofText now path (absolutePath files path) text = .ok content →
      Loads now files loader path
        (loader.store { content with path := absolutePath files path, serial := loader.loads },
          .ok { content with path := absolutePath files path, serial := loader.loads })

theorem loads_load (now : Timestamp) (files : FileSystem) (loader : Loader) (path : Text) :
    Loads now files loader path (loader.load now files path) := by
  unfold load
  dsimp only
  split
  next error read => exact .unreadable read
  next text read =>
    split
    next file found => exact .kept read found
    next missing =>
      split
      next error refused => exact .refused read missing refused
      next content made => exact .made read missing made

theorem lookup?_eq_some {loader : Loader} {path : Text} {hash : UInt64} {file : LoadedFile} :
    loader.lookup? path hash = some file ↔
      loader.cache.get? path = some file ∧ file.hash = hash := by
  simp [lookup?, Option.filter_eq_some_iff]

theorem load_of_kept {now : Timestamp} {files : FileSystem} {loader : Loader} {path text : Text}
    {file : LoadedFile} (read : textAt files path = .ok text)
    (found : loader.lookup? (absolutePath files path) (Hash.hash text) = some file) :
    loader.load now files path = (loader, .ok file) := by
  have outcome := loads_load now files loader path
  generalize loader.load now files path = result at outcome
  cases outcome with
  | unreadable failed => simp [read] at failed
  | kept readAgain foundAgain =>
      obtain rfl := Except.ok.inj (read.symm.trans readAgain)
      obtain rfl := Option.some.inj (found.symm.trans foundAgain)
      rfl
  | refused readAgain missing =>
      obtain rfl := Except.ok.inj (read.symm.trans readAgain)
      simp [found] at missing
  | made readAgain missing =>
      obtain rfl := Except.ok.inj (read.symm.trans readAgain)
      simp [found] at missing

theorem load_snd (now : Timestamp) (files : FileSystem) (loader : Loader) (path : Text) :
    (loader.load now files path).2 = (textAt files path).bind fun text =>
      match loader.lookup? (absolutePath files path) (Hash.hash text) with
      | some file => .ok file
      | none => (FileContent.ofText now path (absolutePath files path) text).map fun content =>
          { content with path := absolutePath files path, serial := loader.loads } := by
  have outcome := loads_load now files loader path
  generalize loader.load now files path = result at outcome
  cases outcome with
  | unreadable read => simp [read, Except.bind]
  | kept read found => simp [read, found, Except.bind]
  | refused read missing refused => simp [read, missing, refused, Except.bind, Except.map]
  | made read missing made => simp [read, missing, made, Except.bind, Except.map]

theorem load_empty (now : Timestamp) (files : FileSystem) (path : Text) :
    (load now files {} path).2 = (textAt files path).bind fun text =>
      (FileContent.ofText now path (absolutePath files path) text).map fun content =>
        { content with path := absolutePath files path, serial := 0 } := by
  simp [load_snd, lookup?, OrderedMap.get?, OrderedMap.find?]

def Keeps (loader : Loader) (contents : List Text) : Prop :=
  ∀ path file, loader.cache.get? path = some file → ∃ text ∈ contents, file.Describes path text

namespace Keeps

variable {loader : Loader} {contents : List Text}

theorem mono (keeps : loader.Keeps contents) {more : List Text} (subset : contents ⊆ more) :
    loader.Keeps more := by
  intro path file found
  obtain ⟨text, member, describes⟩ := keeps path file found
  exact ⟨text, subset member, describes⟩

/-- Without collisions, a file that is found by the hash of a content describes that content. -/
theorem describes (keeps : loader.Keeps contents)
    (apart : Set.InjOn Hash.hash { text | text ∈ contents }) {path text : Text} {file : LoadedFile}
    (member : text ∈ contents) (found : loader.lookup? path (Hash.hash text) = some file) :
    file.Describes path text := by
  obtain ⟨kept, hash⟩ := lookup?_eq_some.mp found
  obtain ⟨other, inside, describes⟩ := keeps path file kept
  have same : other = text := apart inside member (describes.hash.symm.trans hash)
  exact same ▸ describes

theorem store (keeps : loader.Keeps contents) {file : LoadedFile} {path text : Text}
    (member : text ∈ contents) (describes : file.Describes path text) :
    (loader.store file).Keeps contents := by
  intro other stored found
  rw [Loader.store, OrderedMap.get?_set, describes.path] at found
  split at found
  next same =>
    obtain rfl := Option.some.inj found
    exact ⟨text, member, same ▸ describes⟩
  next => exact keeps other stored found

theorem load (keeps : loader.Keeps contents) (now : Timestamp) {files : FileSystem} {path : Text}
    (read : ∀ text, textAt files path = .ok text → text ∈ contents) :
    (loader.load now files path).1.Keeps contents := by
  have outcome := loads_load now files loader path
  generalize loader.load now files path = result at outcome
  cases outcome with
  | unreadable => exact keeps
  | kept => exact keeps
  | refused => exact keeps
  | made found _ made => exact keeps.store (read _ found) (FileContent.describes_of_ofText made _)

theorem loadAll (keeps : loader.Keeps contents) (now : Timestamp) {files : FileSystem}
    {paths : List Text}
    (read : ∀ path ∈ paths, ∀ text, textAt files path = .ok text → text ∈ contents) :
    (loader.loadAll now files paths).1.Keeps contents := by
  induction paths generalizing loader with
  | nil => exact keeps
  | cons path paths ih =>
      rw [List.forall_mem_cons] at read
      have later := ih (keeps.load now read.1) read.2
      rw [Loader.loadAll]
      dsimp only
      split <;> exact later

end Keeps

end Loader

inductive LoaderOperation where
  | write (path content : Text)
  | remove (path : Text)
  | load (now : Timestamp) (path : Text)
  | loadAll (now : Timestamp) (paths : List Text)
  /-- A load ends that has read its text before, whatever was done since. -/
  | finish (now : Timestamp) (path text : Text)
  | clear

structure LoaderSession where
  files : FileSystem := {}
  loader : Loader := {}
  contents : List Text := []

namespace LoaderSession

open Loader

def textsAt (session : LoaderSession) (paths : List Text) : List Text :=
  paths.filterMap fun path => (textAt session.files path).toOption

def apply (session : LoaderSession) : LoaderOperation → LoaderSession
  | .write path content => { session with files := session.files.place path (.file content) }
  | .remove path => { session with files := session.files.remove path }
  | .load now path =>
    { session with
      loader := (session.loader.load now session.files path).1
      contents := session.textsAt [path] ++ session.contents }
  | .loadAll now paths =>
    { session with
      loader := (session.loader.loadAll now session.files paths).1
      contents := session.textsAt paths ++ session.contents }
  | .finish now path text =>
    match FileContent.ofText now path (absolutePath session.files path) text with
    | .error _ => session
    | .ok content =>
      { session with
        loader := session.loader.store
          { content with
            path := absolutePath session.files path, serial := session.loader.loads }
        contents := text :: session.contents }
  | .clear => { session with loader := session.loader.clear }

def run (session : LoaderSession) (operations : List LoaderOperation) : LoaderSession :=
  operations.foldl apply session

theorem mem_textsAt {session : LoaderSession} {paths : List Text} {path text : Text}
    (member : path ∈ paths) (read : textAt session.files path = .ok text) :
    text ∈ session.textsAt paths :=
  List.mem_filterMap.mpr ⟨path, member, by simp [read, Except.toOption]⟩

theorem keeps_apply {session : LoaderSession} (keeps : session.loader.Keeps session.contents)
    (operation : LoaderOperation) :
    (session.apply operation).loader.Keeps (session.apply operation).contents := by
  cases operation with
  | write => exact keeps
  | remove => exact keeps
  | load now path =>
      apply (keeps.mono (List.subset_append_right _ _)).load now
      exact fun text read => List.mem_append_left _ (mem_textsAt (by simp) read)
  | loadAll now paths =>
      apply (keeps.mono (List.subset_append_right _ _)).loadAll now
      exact fun path member text read => List.mem_append_left _ (mem_textsAt member read)
  | finish now path text =>
      rw [apply]
      split
      · exact keeps
      next content made =>
        exact (keeps.mono (List.subset_cons_self _ _)).store List.mem_cons_self
          (FileContent.describes_of_ofText made _)
  | clear =>
      intro path file found
      simp [apply, clear, OrderedMap.get?, OrderedMap.find?] at found

theorem keeps_run {session : LoaderSession} (keeps : session.loader.Keeps session.contents)
    (operations : List LoaderOperation) :
    (session.run operations).loader.Keeps (session.run operations).contents := by
  induction operations generalizing session with
  | nil => exact keeps
  | cons operation operations ih => exact ih (keeps_apply keeps operation)

/-- What a load of a path gives after a session, compared with a loader that has kept nothing. -/
structure Transparent (session : LoaderSession) (now : Timestamp) (path : Text) : Prop where
  succeeds : (∃ file, (session.loader.load now session.files path).2 = .ok file) ↔
    ∃ file, (Loader.load now session.files {} path).2 = .ok file
  returns : ∀ file, (session.loader.load now session.files path).2 = .ok file →
    ∃ text, textAt session.files path = .ok text ∧
      file.Describes (absolutePath session.files path) text
  fails : ∀ error, (session.loader.load now session.files path).2 = .error error →
    (Loader.load now session.files {} path).2 = .error error ∧
      (session.loader.load now session.files path).1 = session.loader
  hits : ∀ file text, session.loader.cache.get? (absolutePath session.files path) = some file →
    textAt session.files path = .ok text → file.hash = Hash.hash text →
      session.loader.load now session.files path = (session.loader, .ok file)
  /-- The format by the absolute path is the one that the path itself shows, if it shows one. -/
  format : ∀ format, FileFormat.ofPath path = .ok format →
    FileFormat.ofPath (absolutePath session.files path) = .ok format
  keeps : session.loader.Keeps session.contents

/--
After any session, a load whose content collides with none that was read is transparent: a loader
without a cache would give the same.
-/
theorem load_transparent (files : FileSystem) (operations : List LoaderOperation)
    (now : Timestamp) (path : Text)
    (apart : Set.InjOn Hash.hash { text | text ∈
      ((run { files := files } operations).apply (.load now path)).contents }) :
    (run { files := files } operations).Transparent now path := by
  have keeps : (run { files := files } operations).loader.Keeps
      (run { files := files } operations).contents :=
    keeps_run (by simp [Keeps, OrderedMap.get?, OrderedMap.find?]) operations
  generalize run { files := files } operations = session at apart keeps ⊢
  have described {text : Text} {file : LoadedFile} (read : textAt session.files path = .ok text)
      (found : session.loader.lookup? (absolutePath session.files path) (Hash.hash text) =
        some file) : file.Describes (absolutePath session.files path) text :=
    (keeps.mono (List.subset_append_right _ _)).describes apart
      (List.mem_append_left _ (mem_textsAt (by simp) read)) found
  have empty := load_empty now session.files path
  have outcome := loads_load now session.files session.loader path
  refine ⟨?_, ?_, ?_, ?_, ?_, keeps⟩
  · generalize session.loader.load now session.files path = result at outcome
    cases outcome with
    | unreadable read => simp [empty, read, Except.bind]
    | kept read found =>
        -- What is kept was made of this very content, so it can be made of it again.
        obtain ⟨content, made⟩ := FileContent.exists_ofText (described read found) now path
        simp [empty, read, made, Except.bind, Except.map]
    | refused read _ refused => simp [empty, read, refused, Except.bind, Except.map]
    | made read _ made => simp [empty, read, made, Except.bind, Except.map]
  · intro file returned
    generalize session.loader.load now session.files path = result at outcome returned
    cases outcome with
    | unreadable => simp at returned
    | kept read found =>
        obtain rfl := Except.ok.inj returned
        exact ⟨_, read, described read found⟩
    | refused => simp at returned
    | made read _ made =>
        obtain rfl := Except.ok.inj returned
        exact ⟨_, read, FileContent.describes_of_ofText made _⟩
  · intro error failed
    generalize session.loader.load now session.files path = result at outcome failed ⊢
    cases outcome with
    | unreadable read =>
        obtain rfl := Except.error.inj failed
        simp [empty, read, Except.bind]
    | kept => simp at failed
    | refused read _ refused =>
        obtain rfl := Except.error.inj failed
        simp [empty, read, refused, Except.bind, Except.map]
    | made => simp at failed
  · intro file text kept read same
    exact load_of_kept read (Loader.lookup?_eq_some.mpr ⟨kept, same⟩)
  · intro format known
    exact FileFormat.ofPath_absolute (by simp [FileSystem.workingDirectory, Path.ofParts]) known

def noteFiles (content : Text) : FileSystem :=
  FileSystem.place { workingParts := [utf8 "notes"] } (utf8 "a.yaml") (.file content)

def noteOperations : List LoaderOperation :=
  [.load Timestamp.zero (utf8 "a.yaml"), .write (utf8 "a.yaml") (utf8 "$type: 1\n"),
    .load Timestamp.zero (utf8 "./a.yaml"), .write (utf8 "a.yaml") (utf8 "$type: A\n")]

theorem load_transparent_note :
    (run { files := noteFiles (utf8 "$type: A\n") } noteOperations).loader.cachedPaths =
        [utf8 "/notes/a.yaml"] ∧
      (run { files := noteFiles (utf8 "$type: A\n") } noteOperations).Transparent Timestamp.zero
        (utf8 "a.yaml") := by
  have apart : ∀ left ∈ ((run { files := noteFiles (utf8 "$type: A\n") } noteOperations).apply
        (.load Timestamp.zero (utf8 "a.yaml"))).contents,
      ∀ right ∈ ((run { files := noteFiles (utf8 "$type: A\n") } noteOperations).apply
        (.load Timestamp.zero (utf8 "a.yaml"))).contents,
        Hash.hash left = Hash.hash right → left = right := by decide +kernel
  exact ⟨by decide +kernel, load_transparent _ _ _ _ fun left inside right member =>
    apart left inside right member⟩

/-- A path with a slash at its end shows no format, but it is loaded by the format of the file. -/
theorem load_without_format :
    ∃ file, (Loader.load Timestamp.zero (noteFiles (utf8 "$type: A\n")) {} (utf8 "a.yaml/")).2 =
        .ok file ∧
      ¬∃ format, FileFormat.ofPath (utf8 "a.yaml/") = .ok format ∧
        Record.decode format (utf8 "$type: A\n") = .ok file.records := by
  have accepted : (Loader.load Timestamp.zero (noteFiles (utf8 "$type: A\n")) {}
      (utf8 "a.yaml/")).2.isOk = true := by decide +kernel
  have unknown : (FileFormat.ofPath (utf8 "a.yaml/")).isOk = false := by decide
  cases loaded : (Loader.load Timestamp.zero (noteFiles (utf8 "$type: A\n")) {}
      (utf8 "a.yaml/")).2 with
  | error error => simp [loaded, Except.isOk, Except.toBool] at accepted
  | ok file =>
      refine ⟨file, rfl, ?_⟩
      rintro ⟨format, known, _⟩
      simp [known, Except.isOk, Except.toBool] at unknown

end LoaderSession

end EntitySchema
