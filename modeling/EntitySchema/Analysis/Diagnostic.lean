import EntitySchema.Directives
import EntitySchema.Schema.Basic

/-!
Findings about a set of schemas, and the place that each of them is reported at.
-/

namespace EntitySchema

inductive Severity where
  | error
  | warning
  | information
  | hint
  deriving DecidableEq, Repr

namespace Severity

def all : List Severity := [.error, .warning, .information, .hint]

def name : Severity → Text
  | .error => utf8 "error"
  | .warning => utf8 "warning"
  | .information => utf8 "info"
  | .hint => utf8 "hint"

def nameOfNumber (number : Int) : Text :=
  match if 1 ≤ number then all[(number - 1).toNat]? else none with
  | some severity => severity.name
  | none => utf8 "severity(" ++ Text.ofInt number ++ utf8 ")"

end Severity

structure AnalysisInput where
  path : Text
  schema : Schema
  record : Record := {}

structure Diagnostic where
  path : Text
  line : Nat
  schema : Text
  field : Text
  severity : Severity
  message : Text
  code : Text
  source : Text := utf8 "icetype"
  deriving DecidableEq, Repr

namespace Diagnostic

/-- A finding at a key of an input; without a key it stands at the name of the schema. -/
def report (input : AnalysisInput) (field : Text) (severity : Severity) (code message : Text) :
    Diagnostic :=
  { path := input.path
    line := input.record.lineOf (if field.isEmpty then Key.type else field)
    schema := input.schema.name
    field := field
    severity := severity
    message := message
    code := code }

def location (path : Text) (line : Nat) : Text :=
  if 0 < line then path ++ utf8 ":" ++ Text.ofNat line else path

def describe (diagnostic : Diagnostic) : Text :=
  let place := location diagnostic.path diagnostic.line
  (if place.isEmpty then [] else place ++ utf8 ": ") ++ diagnostic.severity.name ++ utf8 ": " ++
    diagnostic.message ++ utf8 " [" ++ diagnostic.code ++ utf8 "]"

/-- The order of reports: by file, then by line, then by code. -/
def compare (left right : Diagnostic) : Ordering :=
  (Text.compare left.path right.path).then <|
    (Ord.compare left.line right.line).then (Text.compare left.code right.code)

def le (left right : Diagnostic) : Bool := compare left right != .gt

end Diagnostic

end EntitySchema
