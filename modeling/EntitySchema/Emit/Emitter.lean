import EntitySchema.Emit.Draft
import EntitySchema.Emit.View

/-!
Output formats: which ones there are, and how a list of schemas is written in each. JSON output is
one array; YAML output is one document per schema.
-/

namespace EntitySchema

inductive Emitter where
  | json
  | yaml
  deriving DecidableEq, Repr

structure EmitOptions where
  indent : Int := 0
  omitTimestamps : Bool := false
  deriving DecidableEq, Repr

inductive EmitError where
  | unknownEmitter (name : Text)
  | nothingToWrite
  | unfinished (error : DraftError)
  | unwritable (error : JsonError)
  deriving DecidableEq, Repr

namespace EmitError

def describe : EmitError → Text
  | .unknownEmitter name => utf8 "icetype: unknown emitter: " ++ name
  | .nothingToWrite => utf8 "yaml: no document to write"
  | .unfinished .malformedName => utf8 "yaml: a name is not valid UTF-8"
  | .unfinished .unsettledValue => utf8 "yaml: a literal text starts with a tab"
  | .unwritable error => error.describe

end EmitError

namespace Emitter

def name : Emitter → Text
  | .json => utf8 "json"
  | .yaml => utf8 "yaml"

def all : List Emitter := [.json, .yaml]

def ofName (name : Text) : Except EmitError Emitter :=
  match all.find? fun emitter => emitter.name = name with
  | some emitter => .ok emitter
  | none => .error (.unknownEmitter name)

def step (options : EmitOptions) : Nat := if 0 < options.indent then options.indent.toNat else 2

def blockStep (options : EmitOptions) : Nat :=
  if 2 ≤ step options ∧ step options ≤ 9 then step options else 2

/-- Which moments a format shows. YAML leaves out the first moment of all, JSON does not. -/
def shows (emitter : Emitter) (options : EmitOptions) (moment : Timestamp) : Bool :=
  !options.omitTimestamps && (emitter = .json || !moment.isZero)

def views (emitter : Emitter) (options : EmitOptions) (schemas : List Schema) : List Document :=
  schemas.map (Schema.toDocument (emitter.shows options))

def write (emitter : Emitter) (options : EmitOptions) (schemas : List Schema) :
    Text × Option EmitError :=
  let views := views emitter options schemas
  match emitter with
  | .json =>
    match (Document.list views).toJson with
    | .ok array => (array.renderIndented (step options) 0 ++ utf8 "\n", none)
    | .error error => ([], some (.unwritable error))
  | .yaml =>
    if schemas.isEmpty then ([], some .nothingToWrite)
    else
      let (text, error) := Draft.deliver (blockStep options) true (views.map Draft.ofDocument)
      (text, error.map .unfinished)

def emit (emitter : Emitter) (options : EmitOptions) (schemas : List Schema) :
    Except EmitError Text :=
  match emitter.write options schemas with
  | (text, none) => .ok text
  | (_, some error) => .error error

end Emitter

end EntitySchema
