import EntitySchema.Files.Tree
import EntitySchema.Yaml.Decode

/-!
The configuration file: where it is looked for, what it may say, and the paths it names.
-/

namespace EntitySchema

structure Config where
  paths : List Text := []
  extensions : List Text := []
  emitFormat : Text := []
  emitOut : Text := []
  logLevel : Text := []
  /-- The directory that relative paths are seen from. -/
  directory : Text := []
  deriving DecidableEq, Repr

inductive ConfigError where
  | notFound
  | inaccessible (error : FileError)
  | unreadable (path : Text)
  deriving DecidableEq, Repr

namespace ConfigError

def describe : ConfigError → Text
  | .notFound => utf8 "icetype: no .icetype.yaml found"
  | .inaccessible error => error.describe
  | .unreadable path => path ++ utf8 ": " ++ DecodeError.unreadable.describe

end ConfigError

namespace Config

open Yaml (Node Setting Shape Stream)

def fileNames : List Text :=
  [utf8 ".icetype.yaml", utf8 ".icetype.yml", utf8 "icetype.yaml", utf8 "icetype.yml"]

def defaultExtensions : List Text := [utf8 ".yaml", utf8 ".yml", utf8 ".json"]

def shape : List (Text × Shape) :=
  [(utf8 "paths", .texts), (utf8 "extensions", .texts),
    (utf8 "emit", .group [(utf8 "format", .text), (utf8 "out", .text)]),
    (utf8 "log", .group [(utf8 "level", .text)])]

abbrev Settings := List (Text × Option Setting)

def textOf (settings : Settings) (name : String) : Text :=
  match settings.lookup (utf8 name) with
  | some (some (.text text)) => text
  | _ => []

def textsOf (settings : Settings) (name : String) : List Text :=
  match settings.lookup (utf8 name) with
  | some (some (.texts texts)) => texts
  | _ => []

def groupOf (settings : Settings) (name : String) : Settings :=
  match settings.lookup (utf8 name) with
  | some (some (.group settings)) => settings
  | _ => []

def ofRoot? (root : Node) (rest : Stream) : Option Config :=
  (root.readSettings? shape rest).map fun settings =>
    { paths := textsOf settings "paths"
      extensions := textsOf settings "extensions"
      emitFormat := textOf (groupOf settings "emit") "format"
      emitOut := textOf (groupOf settings "emit") "out"
      logLevel := textOf (groupOf settings "log") "level" }

/-- The configuration of a text; an empty text gives an empty one. -/
def ofText? (text : Text) : Option Config :=
  match Yaml.firstDocument? text with
  | none => none
  | some none => some {}
  | some (some (root, rest)) => ofRoot? root rest

def load (files : FileSystem) (path : Text) : Except ConfigError Config :=
  match files.read (Path.clean path) with
  | .error error => .error (.inaccessible error)
  | .ok text =>
    match ofText? text with
    | none => .error (.unreadable path)
    | some config => .ok { config with directory := Path.directory path }

def candidates (parts : List Text) : List Text :=
  (Path.ancestors parts).flatMap fun above => fileNames.map (Path.join (Path.ofParts above))

def find? (files : FileSystem) (directory : Text) : Option Text :=
  let parts := Path.simplify (Path.absolute files.workingDirectory directory)
  (candidates parts).find? files.contains

def loadNearest (files : FileSystem) (directory : Text) : Except ConfigError Config :=
  match find? files directory with
  | none => .error .notFound
  | some path => load files path

def resolvedPaths (config : Config) : List Text :=
  config.paths.map fun path =>
    if Path.isAbsolute path || config.directory.isEmpty then path
    else Path.join config.directory path

def schemaExtensions (config : Config) : List Text :=
  if config.extensions.isEmpty then defaultExtensions else config.extensions

end Config

end EntitySchema
