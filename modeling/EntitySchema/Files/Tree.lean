import EntitySchema.Files.Path

/-!
A tree of files and directories, and how a path is followed in it. Following a path enters one
directory after another, so a part that is missing stops it even if `..` would leave it again.
-/

namespace EntitySchema

inductive FileNode where
  | file (content : Text)
  | directory (entries : List (Text × FileNode))
  deriving Inhabited, Repr

inductive AccessError where
  | notFound
  | notDirectory
  | isDirectory
  | nameTooLong
  | invalidArgument
  deriving DecidableEq, Repr

namespace AccessError

def describe : AccessError → Text
  | .notFound => utf8 "no such file or directory"
  | .notDirectory => utf8 "not a directory"
  | .isDirectory => utf8 "is a directory"
  | .nameTooLong => utf8 "file name too long"
  | .invalidArgument => utf8 "invalid argument"

end AccessError

structure FileError where
  operation : Text
  path : Text
  cause : AccessError
  deriving DecidableEq, Repr

namespace FileError

def describe (error : FileError) : Text :=
  error.operation ++ utf8 " " ++ error.path ++ utf8 ": " ++ error.cause.describe

end FileError

namespace FileNode

def at? : FileNode → List Text → Option FileNode
  | node, [] => some node
  | .file _, _ :: _ => none
  | .directory entries, name :: names =>
    match entries.lookup name with
    | some child => child.at? names
    | none => none

def setEntry (name : Text) (node : Option FileNode) (entries : List (Text × FileNode)) :
    List (Text × FileNode) :=
  entries.filter (fun entry => entry.1 != name) ++
    match node with
    | some node => [(name, node)]
    | none => []

def entries : FileNode → List (Text × FileNode)
  | .file _ => []
  | .directory entries => entries

def put (node : Option FileNode) : (names : List Text) → FileNode → FileNode
  | [], here => node.getD here
  | [name], here => .directory (setEntry name node here.entries)
  | name :: next :: names, here =>
    let child := (here.entries.lookup name).getD (.directory [])
    .directory (setEntry name (some (put node (next :: names) child)) here.entries)

end FileNode

structure FileSystem where
  root : FileNode := .directory []
  workingParts : List Text := []
  deriving Inhabited, Repr

namespace FileSystem

def workingDirectory (files : FileSystem) : Text := Path.ofParts files.workingParts

def longestName : Nat := 255

def longestPath : Nat := 4095

/-- What is wrong with a path, whatever files there are. The empty path denotes nothing. -/
def pathError? (path : Text) : Option AccessError :=
  if path.contains 0 then some .invalidArgument
  else if path.isEmpty then some .notFound
  else if longestPath < path.length then some .nameTooLong
  else none

/-- Follows parts from a place, which lists the names on the way to it, the last one first. -/
def follow (root : FileNode) : (place parts : List Text) → Except AccessError (List Text)
  | place, [] => if (root.at? place.reverse).isSome then .ok place else .error .notFound
  | place, part :: parts =>
    match root.at? place.reverse with
    | none => .error .notFound
    | some (.file _) => .error .notDirectory
    | some (.directory _) =>
      if part.isEmpty || part = Path.current then follow root place parts
      else if part = Path.parent then follow root (place.drop 1) parts
      else if longestName < part.length then .error .nameTooLong
      else follow root (part :: place) parts

def locate (files : FileSystem) (path : Text) : Except AccessError (List Text) :=
  match pathError? path with
  | some error => .error error
  | none =>
    let start := if Path.isAbsolute path then [] else files.workingParts.reverse
    match follow files.root start (Path.parts path) with
    | .ok place => .ok place.reverse
    | .error error => .error error

def node (files : FileSystem) (path : Text) : Except AccessError FileNode :=
  match files.locate path with
  | .error error => .error error
  | .ok place =>
    match files.root.at? place with
    | some node => .ok node
    | none => .error .notFound

def contains (files : FileSystem) (path : Text) : Bool :=
  match files.node path with
  | .ok _ => true
  | .error _ => false

def read (files : FileSystem) (path : Text) : Except FileError Text :=
  match files.node path with
  | .ok (.file content) => .ok content
  | .ok (.directory _) => .error ⟨utf8 "read", path, .isDirectory⟩
  | .error cause => .error ⟨utf8 "open", path, cause⟩

def place (files : FileSystem) (path : Text) (node : FileNode) : FileSystem :=
  let names := Path.simplify (Path.absolute files.workingDirectory path)
  { files with root := files.root.put (some node) names }

def remove (files : FileSystem) (path : Text) : FileSystem :=
  let names := Path.simplify (Path.absolute files.workingDirectory path)
  { files with root := files.root.put none names }

def placeOfNew (files : FileSystem) (path : Text) : Except AccessError (List Text) :=
  let bare := (path.reverse.dropWhile fun byte => byte = Path.slash).reverse
  let name := Path.baseName bare
  let above := bare.take (bare.length - name.length)
  let place :=
    if above.isEmpty && !Path.isAbsolute path then .ok files.workingParts
    else files.locate (above ++ [Path.slash])
  match pathError? path, place with
  | some error, _ => .error error
  | none, .error error => .error error
  | none, .ok place =>
    if bare.length < path.length || name = Path.current || name = Path.parent then
      .error .isDirectory
    else if longestName < name.length then .error .nameTooLong
    else
      match files.root.at? (place ++ [name]) with
      | some (.directory _) => .error .isDirectory
      | _ => .ok (place ++ [name])

def create (files : FileSystem) (path content : Text) : Except FileError FileSystem :=
  match files.placeOfNew path with
  | .error cause => .error ⟨utf8 "open", path, cause⟩
  | .ok place => .ok { files with root := files.root.put (some (.file content)) place }

end FileSystem

end EntitySchema
