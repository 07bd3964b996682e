import EntitySchema.Command.Check
import EntitySchema.Command.Invocation
import EntitySchema.Config
import EntitySchema.Emit.Emitter

/-!
What each command prints, writes and fails with. A command that waits for a file which is never read
to its end has no outcome.
-/

namespace EntitySchema

inductive CommandError where
  | config (error : ConfigError)
  | logLevel (level : Text)
  | format (error : EmitError)
  | missing (file : MissingFile)
  | noSchemaFiles
  | load (error : LoadError)
  | output (error : FileError)
  | emit (error : EmitError)
  | missingExpression
  | expression (error : ParseError)
  | checkFailed
  deriving DecidableEq, Repr

namespace CommandError

def describe : CommandError → Text
  | .config error => error.describe
  | .logLevel level => utf8 "log.level: unrecognized level: " ++ level.quoted
  | .format error =>
    error.describe ++ utf8 " (available: [" ++
      Text.join (utf8 " ") (Emitter.all.map Emitter.name) ++ utf8 "])"
  | .missing file => file.describe
  | .noSchemaFiles => utf8 "no schema files found"
  | .load error => error.describe
  | .output error => utf8 "creating output: " ++ error.describe
  | .emit error => error.describe
  | .missingExpression => utf8 "missing expression argument"
  | .expression error => error.describe
  | .checkFailed => utf8 "schema check failed"

def isEndless : CommandError → Bool
  | .load error => error.isEndless
  | _ => false

end CommandError

structure Outcome where
  output : Text := []
  report : Text := []
  error : Option CommandError := none
  written : Option (Text × Text) := none
  deriving Inhabited, Repr

namespace Outcome

def failed (error : CommandError) : Outcome := { error := some error }

end Outcome

namespace Invocation

def levelNames : List Text :=
  [utf8 "debug", utf8 "info", utf8 "warn", utf8 "warning", utf8 "error", utf8 "dpanic",
    utf8 "panic", utf8 "fatal"]

def loadConfig (files : FileSystem) (path : Text) : Except CommandError Config :=
  if path.isEmpty then
    match Config.loadNearest files files.workingDirectory with
    | .ok config => .ok config
    | .error .notFound => .ok {}
    | .error error => .error (.config error)
  else (Config.load files path).mapError .config

def checkLevel (config : Config) : Except CommandError Unit :=
  if config.logLevel.isEmpty || levelNames.contains config.logLevel.lower then .ok ()
  else .error (.logLevel config.logLevel)

/-- The operands, else the configured paths, else the working directory. -/
def inputPaths (config : Config) (operands : List Text) : List Text :=
  if !operands.isEmpty then operands
  else if !config.resolvedPaths.isEmpty then config.resolvedPaths
  else [Path.current]

def schemaFiles (files : FileSystem) (config : Config) (operands : List Text) :
    Except CommandError (List Text) :=
  match Discovery.discover files config.schemaExtensions (inputPaths config operands) with
  | .error missing => .error (.missing missing)
  | .ok [] => .error .noSchemaFiles
  | .ok paths => .ok paths

def orElse (first second : Text) : Text := if first.isEmpty then second else first

def prepareParse (now : Timestamp) (files : FileSystem) (configPath : Text)
    (options : ParseOptions) (operands : List Text) :
    Except CommandError (Text × Emitter × List Schema) := do
  let config ← loadConfig files configPath
  checkLevel config
  let format := orElse (orElse options.format config.emitFormat) Emitter.json.name
  let emitter ← (Emitter.ofName format).mapError .format
  let paths ← schemaFiles files config operands
  let loaded ← ((Loader.loadAll now files {} paths).2).mapError .load
  return (orElse options.out config.emitOut, emitter, loaded.flatMap fun file => file.schemas)

/--
Writes the schemas of all files. An output file is made even if the writing then fails, and what was
delivered until then stays.
-/
def runParse (now : Timestamp) (files : FileSystem) (configPath : Text) (options : ParseOptions)
    (operands : List Text) : Option Outcome :=
  match prepareParse now files configPath options operands with
  | .error error => if error.isEndless then none else some (.failed error)
  | .ok (out, emitter, schemas) =>
    let (text, failure) := emitter.write { omitTimestamps := options.omitTimestamps } schemas
    let error := failure.map CommandError.emit
    if out.isEmpty then some { output := text, error := error }
    else
      match files.create out text with
      | .error failure => some (.failed (.output failure))
      | .ok _ => some { written := some (out, text), error := error }

def prepareCheck (files : FileSystem) (configPath : Text) (operands : List Text) :
    Except CommandError (List Text) := do
  let config ← loadConfig files configPath
  checkLevel config
  schemaFiles files config operands

def runCheck (now : Timestamp) (files : FileSystem) (configPath : Text) (operands : List Text) :
    Option Outcome :=
  match prepareCheck files configPath operands with
  | .error error => some (.failed error)
  | .ok paths =>
    let report := CheckReport.ofPaths now files paths
    if report.isEndless then none
    else some {
      report := report.render
      error := if report.isPassed then none else some .checkFailed }

def padded (width : Nat) (text : Text) : Text := text ++ Text.spaces (width - text.runes.length)

def tokenLine (token : Token) : Text :=
  Text.ofNat token.position.line ++ utf8 ":" ++ Text.ofNat token.position.column ++ utf8 "\t" ++
    padded 10 token.kind.name ++ utf8 "\t" ++ token.text.quoted ++ utf8 "\n"

def onExpression (operands : List Text) (run : Text → Outcome) : Outcome :=
  if operands.isEmpty then .failed .missingExpression else run (Text.join (utf8 " ") operands)

def documentOutcome (document : Document) : Outcome :=
  match document.toJson with
  | .ok json => { output := json.renderIndented 2 0 ++ utf8 "\n" }
  | .error error => .failed (.emit (.unwritable error))

def runTokens (operands : List Text) : Outcome :=
  onExpression operands fun expression => { output := (tokenize expression).flatMap tokenLine }

def runField (operands : List Text) : Outcome :=
  onExpression operands fun expression =>
    match Field.parse expression with
    | .ok field => documentOutcome field.toDocument
    | .error error => .failed (.expression error)

def runRelation (operands : List Text) : Outcome :=
  onExpression operands fun expression =>
    match Relation.parse expression with
    | .ok relation => documentOutcome relation.toDocument
    | .error error => .failed (.expression error)

def run (now : Timestamp) (files : FileSystem) (invocation : Invocation) : Option Outcome :=
  match invocation.action with
  | .parse options operands => runParse now files invocation.config options operands
  | .check operands => runCheck now files invocation.config operands
  | .tokens operands => some (runTokens operands)
  | .field operands => some (runField operands)
  | .relation operands => some (runRelation operands)

end Invocation

end EntitySchema
