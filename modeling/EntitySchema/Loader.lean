import EntitySchema.Files.Discovery
import EntitySchema.Hash
import EntitySchema.Schema.Basic
import EntitySchema.Yaml.Decode

/-!
Loading schema files. A loaded file is kept by its absolute path and returned again as long as the
hash of its content has not changed.
-/

namespace EntitySchema

namespace FileFormat

def ofPath (path : Text) : Except DecodeError FileFormat :=
  let extension := Path.extension path
  let kind := extension.lower
  if kind = utf8 ".yaml" || kind = utf8 ".yml" then .ok .yaml
  else if kind = utf8 ".json" then .ok .json
  else .error (.unsupportedFormat extension)

end FileFormat

inductive LoadCause where
  | missing (file : MissingFile)
  | inaccessible (error : FileError)
  | undecodable (error : DecodeError)
  | invalid (error : ParseError)
  deriving DecidableEq, Repr

namespace LoadCause

def describe : LoadCause → Text
  | .missing file => file.describe
  | .inaccessible error => error.describe
  | .undecodable error => error.describe
  | .invalid error => error.describe

end LoadCause

structure LoadError where
  path : Text
  /-- The number of the record at fault, counted from zero; none if it is the whole file. -/
  record : Option Nat := none
  line : Nat := 0
  cause : LoadCause
  deriving DecidableEq, Repr

namespace LoadError

def location (error : LoadError) : Text :=
  if 0 < error.line then error.path ++ utf8 ":" ++ Text.ofNat error.line else error.path

def describe (error : LoadError) : Text := error.location ++ utf8 ": " ++ error.cause.describe

/-- The file is never read to its end, so this error never comes back. -/
def isEndless (error : LoadError) : Bool := error.cause = .undecodable .endless

end LoadError

structure FileContent where
  hash : UInt64
  records : List Record
  schemas : List Schema

structure LoadedFile extends FileContent where
  path : Text
  /-- Tells apart what different loads returned. -/
  serial : Nat

namespace LoadError

def atRecord (path : Text) (index : Nat) (record : Record) (error : ParseError) : LoadError :=
  { path := path
    record := some index
    line := if error.field.isEmpty then 0 else record.lineOf error.field
    cause := .invalid error }

end LoadError

namespace FileContent

def schemasOf (now : Timestamp) (path : Text) : (index : Nat) → List Record →
    Except LoadError (List Schema)
  | _, [] => .ok []
  | index, record :: records =>
    match Schema.ofRecord now record with
    | .error error => .error (.atRecord path index record error)
    | .ok schema =>
      match schemasOf now path (index + 1) records with
      | .error error => .error error
      | .ok schemas => .ok (schema :: schemas)

def ofText (now : Timestamp) (path absolutePath text : Text) : Except LoadError FileContent :=
  match FileFormat.ofPath absolutePath with
  | .error error => .error { path := path, cause := .undecodable error }
  | .ok format =>
    match Record.decode format text with
    | .error error => .error { path := path, cause := .undecodable error }
    | .ok records =>
      match schemasOf now path 0 records with
      | .error error => .error error
      | .ok schemas => .ok { hash := Hash.hash text, records := records, schemas := schemas }

end FileContent

structure Loader where
  cache : OrderedMap LoadedFile := {}
  loads : Nat := 0

namespace Loader

def readText (files : FileSystem) (path absolutePath : Text) : Except LoadError Text :=
  match files.read absolutePath with
  | .ok text => .ok text
  | .error error =>
    let cause := if error.cause = .notFound then .missing ⟨path⟩ else .inaccessible error
    .error { path := path, cause := cause }

def lookup? (loader : Loader) (absolutePath : Text) (hash : UInt64) : Option LoadedFile :=
  (loader.cache.get? absolutePath).filter fun file => file.hash = hash

def store (loader : Loader) (file : LoadedFile) : Loader :=
  { cache := loader.cache.set file.path file, loads := loader.loads + 1 }

/-- Loads a file, unless what is kept of it is still right. A failure changes nothing. -/
def load (now : Timestamp) (files : FileSystem) (loader : Loader) (path : Text) :
    Loader × Except LoadError LoadedFile :=
  let absolutePath := Path.absolute files.workingDirectory (Path.clean path)
  match readText files path absolutePath with
  | .error error => (loader, .error error)
  | .ok text =>
    match loader.lookup? absolutePath (Hash.hash text) with
    | some file => (loader, .ok file)
    | none =>
      match FileContent.ofText now path absolutePath text with
      | .error error => (loader, .error error)
      | .ok content =>
        let file : LoadedFile :=
          { content with path := absolutePath, serial := loader.loads }
        (loader.store file, .ok file)

/-- Loads every file of a list; of several failures the first one in the list is returned. -/
def loadAll (now : Timestamp) (files : FileSystem) (loader : Loader) :
    List Text → Loader × Except LoadError (List LoadedFile)
  | [] => (loader, .ok [])
  | path :: paths =>
    let (loader, result) := loader.load now files path
    let (loader, results) := loadAll now files loader paths
    match result, results with
    | .error error, _ => (loader, .error error)
    | .ok _, .error error => (loader, .error error)
    | .ok file, .ok loaded => (loader, .ok (file :: loaded))

def clear (loader : Loader) : Loader := { loader with cache := {} }

def cachedPaths (loader : Loader) : List Text := Text.sort loader.cache.keys

end Loader

end EntitySchema
