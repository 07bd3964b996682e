import EntitySchema.Command.Run
import Std.Time.DateTime.Timestamp

/-!
The command line program. It takes what a command may look at from the disk, runs the command on
that, and puts out the result.
-/

namespace EntitySchema.Program

def textOf (string : String) : Text := utf8 string

def stringOf (text : Text) : String := (String.fromUTF8? ⟨text.toArray⟩).getD ""

abbrev Found := List (Text × FileNode)

/-- A file or directory at an absolute path and, if `deep`, what lies below it. -/
partial def findAt (wanted : Text → Bool) (deep : Bool) (path : Text) : IO Found := do
  let place := (← IO.currentDir) / stringOf path
  if ← place.isDir then
    let entries ← if deep then place.readDir else pure #[]
    let names := (entries.map fun entry => textOf entry.fileName).toList.filter fun name =>
      !Discovery.isHidden name || Exclusions.fileNames.contains name
    let below ← names.mapM fun name =>
      findAt (fun name => wanted name || Exclusions.fileNames.contains name) true
        (Path.join path name)
    return (path, .directory []) :: below.flatten
  else if ← place.pathExists then
    if wanted (Path.baseName path) then
      return [(path, .file (← IO.FS.readBinFile place).data.toList)]
    else return [(path, .file [])]
  else return []

def addFound (files : FileSystem) (found : Found) : FileSystem :=
  found.foldl (fun files (path, node) =>
    match node with
    | .directory _ => if files.contains path then files else files.place path node
    | .file _ => files.place path node) files

def addPath (wanted : Text → Bool) (files : FileSystem) (path : Text) : IO FileSystem := do
  let parts := Path.parts path
  let start := if Path.isAbsolute path then utf8 "/" else files.workingDirectory
  let passed := (List.range parts.length).map fun count =>
    Path.absolute start (Text.join [Path.slash] (parts.take count))
  let directories ← passed.mapM (findAt (fun _ => false) false)
  let found ← findAt wanted true (Path.absolute files.workingDirectory path)
  return addFound (addFound files directories.flatten) found

def addConfigs (files : FileSystem) (path : Text) : IO FileSystem := do
  let paths := if path.isEmpty then Config.candidates files.workingParts else [path]
  let found ← paths.mapM fun path =>
    findAt (fun _ => true) false (Path.absolute files.workingDirectory (Path.clean path))
  return addFound files found.flatten

def inputsOf (files : FileSystem) (invocation : Invocation) : List Text × (Text → Bool) :=
  let config := match Invocation.loadConfig files invocation.config with
    | .ok config => config
    | .error _ => {}
  let operands := match invocation.action with
    | .parse _ operands => some operands
    | .check operands => some operands
    | _ => none
  match operands with
  | none => ([], fun _ => false)
  | some operands =>
    (Invocation.inputPaths config operands, fun name =>
      operands.any (fun operand => Path.baseName operand = name) ||
        config.paths.any (fun path => Path.baseName path = name) ||
        Discovery.accepts config.schemaExtensions name)

def outputDirectory (files : FileSystem) (invocation : Invocation) : List Text :=
  match invocation.action, Invocation.loadConfig files invocation.config with
  | .parse options _, .ok config =>
    [Path.directory (Invocation.orElse options.out config.emitOut)]
  | _, _ => []

def snapshot (invocation : Invocation) : IO FileSystem := do
  let working := textOf (← IO.currentDir).toString
  let start : FileSystem := { workingParts := Path.simplify working }
  let files ← addConfigs (start.place working (.directory [])) invocation.config
  let (paths, wanted) := inputsOf files invocation
  let files ← paths.foldlM (addPath wanted) files
  let outputs ← (outputDirectory files invocation).mapM fun path =>
    findAt (fun _ => false) false (Path.absolute files.workingDirectory path)
  return addFound files outputs.flatten

def now : IO Timestamp := do
  return Timestamp.ofUnix (← Std.Time.Timestamp.now).toNanosecondsSinceUnixEpoch.val

def usage : String :=
  "usage: icetype [--debug] [--config FILE] parse|check|tokens|field|relation [ARGUMENTS]"

def put (outcome : Outcome) : IO UInt32 := do
  if let some (path, content) := outcome.written then
    IO.FS.writeBinFile (stringOf path) ⟨content.toArray⟩
  (← IO.getStdout).write ⟨outcome.output.toArray⟩
  (← IO.getStderr).write ⟨outcome.report.toArray⟩
  match outcome.error with
  | none => return 0
  | some error =>
    (← IO.getStderr).write ⟨(error.describe ++ utf8 "\n").toArray⟩
    return 1

/-- Instead of running for ever, a command that has no outcome is broken off. -/
def runInvocation (invocation : Invocation) : IO UInt32 := do
  let environment ← IO.getEnv "ICETYPE_CONFIG"
  let config := Invocation.orElse invocation.config (textOf (environment.getD ""))
  let invocation := { invocation with config := config }
  match invocation.run (← now) (← snapshot invocation) with
  | some outcome => put outcome
  | none =>
    (← IO.getStderr).write ⟨(DecodeError.endless.describe ++ utf8 "\n").toArray⟩
    return 2

end EntitySchema.Program

open EntitySchema in
def main (arguments : List String) : IO UInt32 := do
  match Invocation.ofArguments? (arguments.map utf8) with
  | some invocation => Program.runInvocation invocation
  | none =>
    IO.eprintln Program.usage
    return 1
