import EntitySchema.Proofs.Files.Discovery
import EntitySchema.Proofs.Files.Spelling
import EntitySchema.Proofs.Loader.Transparency

/-!
Files that are named more than once. A discovery leaves out repetitions of a text, and so names each
file once as long as what overlaps among its paths is spelled alike.
-/

namespace EntitySchema

inductive FileNode.WellNamed : FileNode → Prop
  | file {content : Text} : WellNamed (.file content)
  | directory {entries : List (Text × FileNode)}
      (names : ∀ entry ∈ entries, entry.1 ≠ [] ∧ Path.slash ∉ entry.1)
      (inside : ∀ entry ∈ entries, entry.2.WellNamed) : WellNamed (.directory entries)

theorem FileNode.WellNamed.at? {node found : FileNode} (named : node.WellNamed)
    {names : List Text} (leads : node.at? names = some found) : found.WellNamed := by
  induction names generalizing node with
  | nil =>
      rw [FileNode.at?] at leads
      exact Option.some.inj leads ▸ named
  | cons name names ih =>
      cases named with
      | file => contradiction
      | directory _ inside =>
          rw [FileNode.at?] at leads
          split at leads
          next child entered =>
            obtain ⟨front, behind, rfl, _⟩ := List.lookup_eq_some_iff.mp entered
            exact ih (inside (name, child) (by simp)) leads
          · contradiction

theorem FileSystem.wellNamed_of_node {files : FileSystem} (named : files.root.WellNamed)
    {path : Text} {node : FileNode} (found : files.node path = .ok node) : node.WellNamed := by
  unfold FileSystem.node at found
  split at found
  · contradiction
  next place _ =>
    split at found
    next node' leads => exact Except.ok.inj found ▸ named.at? leads
    · contradiction

namespace Discovery

theorem ne_nil_of_node {files : FileSystem} {path : Text} {node : FileNode}
    (found : files.node path = .ok node) : path ≠ [] := by
  rintro rfl
  simp [FileSystem.node, FileSystem.locate, FileSystem.pathError?] at found

def StaysBelow {ε : Type} (walk : Text → Except ε (List Text)) : Prop :=
  ∀ directory delivered, walk directory = .ok delivered →
    ∀ file ∈ delivered, Path.IsBelow directory file

section Tree

variable {directory : Text} {extensions : List Text}

theorem isName_of_visible {name : Text} (visible : isHidden name = false) (nonempty : name ≠ [])
    (plain : Path.slash ∉ name) : Path.IsName name := by
  refine ⟨⟨nonempty, ?_, ?_⟩, plain⟩ <;> rintro rfl <;> contradiction

theorem mem_filesIn {exclusions : Exclusions} {path file : Text}
    {entries : List (Text × FileNode)}
    (member : file ∈ filesIn directory extensions exclusions path entries) :
    ∃ entry ∈ entries, isHidden entry.1 = false ∧
      file ∈ filesAt directory extensions exclusions (Path.join path entry.1) entry.2 := by
  induction entries with
  | nil => simp [filesIn] at member
  | cons entry entries ih =>
      rw [filesIn] at member
      rcases List.mem_append.mp member with own | later
      · split at own
        · contradiction
        next visible => exact ⟨entry, List.mem_cons_self, by simpa using visible, own⟩
      · obtain ⟨other, inside, found⟩ := ih later
        exact ⟨other, List.mem_cons_of_mem _ inside, found⟩

theorem isBelow_of_entry {path name file : Text} (nonempty : path ≠ [])
    (visible : isHidden name = false) (spelled : name ≠ [] ∧ Path.slash ∉ name)
    (found : Path.join path name ≠ [] → file = Path.join path name ∨
      Path.IsBelow (Path.join path name) file) : Path.IsBelow path file := by
  have step : Path.IsBelow path (Path.join path name) :=
    Path.isBelow_join (isName_of_visible visible spelled.1 spelled.2)
  rcases found (step.clean_eq nonempty ▸ Path.clean_ne_nil _) with rfl | deeper
  · exact step
  · exact step.trans nonempty deeper

theorem below_of_mem_filesAt {node : FileNode} (named : node.WellNamed) {exclusions : Exclusions}
    {path file : Text} (nonempty : path ≠ [])
    (member : file ∈ filesAt directory extensions exclusions path node) :
    file = path ∨ Path.IsBelow path file := by
  induction named generalizing exclusions path with
  | file =>
      rw [filesAt] at member
      split at member
      · exact Or.inl (List.mem_singleton.mp member)
      · contradiction
  | directory names _ ih =>
      rw [filesAt] at member
      split at member
      · contradiction
      · obtain ⟨entry, inside, visible, found⟩ := mem_filesIn member
        refine Or.inr (isBelow_of_entry nonempty visible (names entry inside) fun between => ?_)
        exact ih entry inside between found

theorem staysBelow_walkTree {ε : Type} {files : FileSystem} (named : files.root.WellNamed)
    (extensions : List Text) :
    StaysBelow fun path => (.ok (walkTree files extensions path) : Except ε (List Text)) := by
  intro directory delivered walked file member
  obtain rfl := Except.ok.inj walked
  unfold walkTree at member
  split at member
  · contradiction
  · contradiction
  next entries known =>
    have nonempty := ne_nil_of_node known
    obtain ⟨entry, inside, visible, found⟩ := mem_filesIn member
    cases FileSystem.wellNamed_of_node named known with
    | directory names nodes =>
        apply isBelow_of_entry nonempty visible (names entry inside)
        exact fun between => below_of_mem_filesAt (nodes entry inside) between found

end Tree

section Places

variable {ε : Type} {files : FileSystem} {walk : Text → Except ε (List Text)}
  {paths found : List Text} {path directory file other left right : Text}

def Delivers (files : FileSystem) (walk : Text → Except ε (List Text)) (directory file : Text) :
    Prop :=
  ∃ entries delivered, files.node directory = .ok (.directory entries) ∧
    walk directory = .ok delivered ∧ file ∈ delivered

def IsFile (files : FileSystem) (path : Text) : Prop :=
  ∃ content, files.node path = .ok (.file content)

theorem yields_iff : Yields files walk path file ↔
    (IsFile files path ∧ file = path) ∨ Delivers files walk path file := by
  constructor
  · rintro (known | ⟨known, walked, member⟩)
    · exact Or.inl ⟨⟨_, known⟩, rfl⟩
    · exact Or.inr ⟨_, _, known, walked, member⟩
  · rintro (⟨⟨content, known⟩, rfl⟩ | ⟨entries, delivered, known, walked, member⟩)
    · exact .itself known
    · exact .below known walked member

theorem Delivers.isBelow (stays : StaysBelow walk) (delivers : Delivers files walk directory file) :
    directory ≠ [] ∧ Path.IsBelow directory file := by
  obtain ⟨entries, delivered, known, walked, member⟩ := delivers
  exact ⟨ne_nil_of_node known, stays directory delivered walked file member⟩

theorem Delivers.base?_eq (stays : StaysBelow walk)
    (delivers : Delivers files walk directory file) :
    Path.base? file = Path.base? directory := by
  obtain ⟨nonempty, below⟩ := delivers.isBelow stays
  exact below.base?_eq nonempty

theorem Delivers.clean_eq (stays : StaysBelow walk)
    (delivers : Delivers files walk directory file) : Path.clean file = file := by
  obtain ⟨nonempty, below⟩ := delivers.isBelow stays
  exact below.clean_eq nonempty

def SameFile (files : FileSystem) (left right : Text) : Prop :=
  Loader.absolutePath files left = Loader.absolutePath files right

theorem SameFile.clean_eq (same : SameFile files left right)
    (start : Path.base? left = Path.base? right) : Path.clean left = Path.clean right :=
  Path.clean_eq_of_absolute_eq rfl start same

/-- Wherever paths overlap, they are spelled in the same way. -/
structure SpelledAlike (files : FileSystem) (walk : Text → Except ε (List Text))
    (paths : List Text) : Prop where
  given : ∀ left ∈ paths, ∀ right ∈ paths, IsFile files left → IsFile files right →
    SameFile files left right → left = right
  /-- A file that is also below a directory is clean, and starts where the directory does. -/
  inside : ∀ path ∈ paths, IsFile files path → ∀ directory ∈ paths, ∀ file,
    Delivers files walk directory file → SameFile files path file →
      Path.clean path = path ∧ Path.base? path = Path.base? directory
  /-- Directories with a file in common start at the same place. -/
  shared : ∀ left ∈ paths, ∀ right ∈ paths, ∀ file other, Delivers files walk left file →
    Delivers files walk right other → SameFile files file other →
      Path.base? left = Path.base? right

theorem SpelledAlike.eq_of_sameFile (alike : SpelledAlike files walk paths)
    (stays : StaysBelow walk) (memberLeft : left ∈ paths) (memberRight : right ∈ paths)
    (yields : Yields files walk left file) (yields' : Yields files walk right other)
    (same : SameFile files file other) : file = other := by
  rcases yields_iff.mp yields with ⟨isFile, rfl⟩ | delivers
  · rcases yields_iff.mp yields' with ⟨isFile', rfl⟩ | delivers
    · exact alike.given _ memberLeft _ memberRight isFile isFile' same
    · obtain ⟨clean, start⟩ := alike.inside _ memberLeft isFile _ memberRight _ delivers same
      rw [← clean, ← delivers.clean_eq stays]
      exact same.clean_eq (start.trans (delivers.base?_eq stays).symm)
  · rcases yields_iff.mp yields' with ⟨isFile', rfl⟩ | delivers'
    · obtain ⟨clean, start⟩ :=
        alike.inside _ memberRight isFile' _ memberLeft _ delivers same.symm
      rw [← clean, ← delivers.clean_eq stays]
      exact same.clean_eq ((delivers.base?_eq stays).trans start.symm)
    · rw [← delivers.clean_eq stays, ← delivers'.clean_eq stays]
      apply same.clean_eq
      rw [delivers.base?_eq stays, delivers'.base?_eq stays]
      exact alike.shared _ memberLeft _ memberRight _ _ delivers delivers' same

/-- The files that are found are different ones exactly if the paths are spelled alike. -/
theorem IsDiscovery.nodup_iff (stays : StaysBelow walk)
    (discovery : IsDiscovery files walk paths (.ok found)) :
    (found.map (Loader.absolutePath files)).Nodup ↔ SpelledAlike files walk paths := by
  have members := discovery.members found rfl
  have distinct : found.Nodup := (discovery.increasing found rfl).nodup
  rw [List.nodup_map_iff_inj_on distinct]
  constructor
  · intro injective
    have only {left right file other : Text} (memberLeft : left ∈ paths)
        (memberRight : right ∈ paths) (yields : Yields files walk left file)
        (yields' : Yields files walk right other) (same : SameFile files file other) :
        file = other :=
      injective file ((members file).mpr ⟨left, memberLeft, yields⟩) other
        ((members other).mpr ⟨right, memberRight, yields'⟩) same
    refine ⟨?_, ?_, ?_⟩
    · intro left memberLeft right memberRight isFile isFile' same
      exact only memberLeft memberRight (yields_iff.mpr (.inl ⟨isFile, rfl⟩))
        (yields_iff.mpr (.inl ⟨isFile', rfl⟩)) same
    · intro path member isFile directory memberDirectory file delivers same
      obtain rfl := only member memberDirectory (yields_iff.mpr (.inl ⟨isFile, rfl⟩))
        (yields_iff.mpr (.inr delivers)) same
      exact ⟨delivers.clean_eq stays, delivers.base?_eq stays⟩
    · intro left memberLeft right memberRight file other delivers delivers' same
      obtain rfl := only memberLeft memberRight (yields_iff.mpr (.inr delivers))
        (yields_iff.mpr (.inr delivers')) same
      rw [← delivers.base?_eq stays, delivers'.base?_eq stays]
  · intro alike file memberFile other memberOther same
    obtain ⟨left, memberLeft, yields⟩ := (members file).mp memberFile
    obtain ⟨right, memberRight, yields'⟩ := (members other).mp memberOther
    exact alike.eq_of_sameFile stays memberLeft memberRight yields yields' same

theorem spelledAlike_of_clean (clean : ∀ path ∈ paths, Path.clean path = path)
    (start : ∀ left ∈ paths, ∀ right ∈ paths, Path.base? left = Path.base? right) :
    SpelledAlike files walk paths where
  given := by
    intro left memberLeft right memberRight _ _ same
    rw [← clean left memberLeft, ← clean right memberRight]
    exact same.clean_eq (start left memberLeft right memberRight)
  inside := fun path member _ directory memberDirectory _ _ _ =>
    ⟨clean path member, start path member directory memberDirectory⟩
  shared := fun left memberLeft right memberRight _ _ _ _ _ =>
    start left memberLeft right memberRight

end Places

end Discovery

end EntitySchema
