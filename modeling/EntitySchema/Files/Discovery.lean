import EntitySchema.Files.Ignore
import EntitySchema.Files.Tree
import EntitySchema.Text.Case

/-!
Which files are meant by a list of paths. A file is taken as it is given; a directory stands for
the files below it that are not hidden, not left out by an ignore file, and of a wanted kind.
-/

namespace EntitySchema

structure MissingFile where
  path : Text
  deriving DecidableEq, Repr

namespace MissingFile

def describe (missing : MissingFile) : Text := utf8 "loader: file not found: " ++ missing.path

end MissingFile

namespace Discovery

def isHidden (name : Text) : Bool := name.head? = some 0x2E

/-- The kind of a file: what follows the last dot of its name, or the whole name without one. -/
def kindOf (name : Text) : Text :=
  let name := name.lower
  let tail := (name.reverse.takeWhile fun byte => byte ≠ 0x2E).reverse
  if tail.length + 1 = name.length then name else tail

def bareExtension (extension : Text) : Text :=
  (Text.dropPrefix? (utf8 ".") extension).getD extension

/-- Whether a file name is of a wanted kind; without a list every kind is. -/
def accepts (extensions : List Text) (name : Text) : Bool :=
  extensions.isEmpty || (extensions.map bareExtension).contains (kindOf name)

def withRulesOf (exclusions : Exclusions) (base : Text) (entries : List (Text × FileNode)) :
    Exclusions :=
  entries.foldl (fun exclusions entry =>
    match entry with
    | (name, .file content) => exclusions.add base name content
    | (_, .directory _) => exclusions) exclusions

mutual

def filesAt (directory : Text) (extensions : List Text) (exclusions : Exclusions) (path : Text) :
    FileNode → List Text
  | .file _ =>
    if accepts extensions (Path.baseName path) && !exclusions.leavesOut false path then [path]
    else []
  | .directory entries =>
    if exclusions.leavesOut true path then []
    else
      filesIn directory extensions
        (withRulesOf exclusions (Path.absolute directory path) entries) path entries

def filesIn (directory : Text) (extensions : List Text) (exclusions : Exclusions) (path : Text) :
    List (Text × FileNode) → List Text
  | [] => []
  | (name, node) :: entries =>
    (if isHidden name then []
      else filesAt directory extensions exclusions (Path.join path name) node) ++
    filesIn directory extensions exclusions path entries

end

def walkTree (files : FileSystem) (extensions : List Text) (path : Text) : List Text :=
  match files.node path with
  | .error _ => []
  | .ok (.file _) => []
  | .ok (.directory entries) =>
    filesIn files.workingDirectory extensions
      (withRulesOf {} (Path.absolute files.workingDirectory path) entries) path entries

def filesOf {ε : Type} (files : FileSystem) (missing : Text → ε)
    (walk : Text → Except ε (List Text)) (path : Text) : Except ε (List Text) :=
  match files.node path with
  | .error _ => .error (missing path)
  | .ok (.file _) => .ok [path]
  | .ok (.directory _) => walk path

def dedup : List Text → List Text
  | [] => []
  | [text] => [text]
  | text :: next :: texts =>
    if text = next then dedup (next :: texts) else text :: dedup (next :: texts)

def discoverWith {ε : Type} (files : FileSystem) (missing : Text → ε)
    (walk : Text → Except ε (List Text)) (paths : List Text) : Except ε (List Text) :=
  match paths.mapM (filesOf files missing walk) with
  | .error error => .error error
  | .ok found => .ok (dedup (Text.sort found.flatten))

def discover (files : FileSystem) (extensions paths : List Text) : Except MissingFile (List Text) :=
  discoverWith files MissingFile.mk (fun path => .ok (walkTree files extensions path)) paths

end Discovery

end EntitySchema
