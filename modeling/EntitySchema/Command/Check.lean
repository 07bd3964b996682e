import EntitySchema.Analysis.Rule
import EntitySchema.Loader

/-!
Checking schema files against each other. Every file that does not load is reported, and the
schemas of those that do are analysed together.
-/

namespace EntitySchema

structure CheckReport where
  paths : List Text
  failures : List LoadError
  inputs : List AnalysisInput
  deriving Inhabited

namespace CheckReport

def inputsOf (path : Text) (file : LoadedFile) : List AnalysisInput :=
  (file.schemas.zip file.records).map fun (schema, record) => { path, schema, record }

/-- Loads the files one by one, so that a broken one does not hide the others. -/
def loadEach (now : Timestamp) (files : FileSystem) (loader : Loader) :
    List Text → List LoadError × List AnalysisInput
  | [] => ([], [])
  | path :: paths =>
    let (loader, result) := loader.load now files path
    let (failures, inputs) := loadEach now files loader paths
    match result with
    | .error error => (error :: failures, inputs)
    | .ok file => (failures, inputsOf path file ++ inputs)

def ofPaths (now : Timestamp) (files : FileSystem) (paths : List Text) : CheckReport :=
  let (failures, inputs) := loadEach now files {} paths
  { paths, failures, inputs }

def diagnostics (report : CheckReport) : List Diagnostic := analyze report.inputs

def countOf (severity : Severity) (diagnostics : List Diagnostic) : Nat :=
  (diagnostics.filter fun diagnostic => diagnostic.severity = severity).length

def errorCount (report : CheckReport) : Nat :=
  countOf .error report.diagnostics + report.failures.length

def warningCount (report : CheckReport) : Nat := countOf .warning report.diagnostics

/-- One of the files is never read to its end, and what stands behind it is never looked at. -/
def isEndless (report : CheckReport) : Bool := report.failures.any LoadError.isEndless

def isPassed (report : CheckReport) : Bool :=
  report.failures.isEmpty && !hasErrors report.diagnostics

def failureLine (error : LoadError) : Text :=
  error.location ++ utf8 ": " ++ Severity.error.name ++ utf8 ": " ++ error.cause.describe

def summary (report : CheckReport) : Text :=
  Text.ofNat report.paths.length ++ utf8 " file(s), " ++
    Text.ofNat report.inputs.length ++ utf8 " schema(s): " ++
    Text.ofNat report.errorCount ++ utf8 " error(s), " ++
    Text.ofNat report.warningCount ++ utf8 " warning(s)"

def render (report : CheckReport) : Text :=
  (report.failures.map failureLine ++ report.diagnostics.map Diagnostic.describe ++
    [report.summary]).flatMap fun line => line ++ utf8 "\n"

end CheckReport

end EntitySchema
