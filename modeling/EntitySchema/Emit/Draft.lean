import EntitySchema.Emit.Document

/-!
What is delivered of a YAML document if a part of it cannot be written. The text goes out in
portions while it is written, so a failure leaves the portions before it behind.
-/

namespace EntitySchema

inductive DraftError where
  | malformedName
  | unsettledValue
  deriving DecidableEq, Repr

inductive Draft where
  | finished (block : Yaml.Block)
  /-- The members before the one that fails, its key, and the entries of it that come out. -/
  | stopped (members : List (Yaml.Spelling × Yaml.Block)) (key : Text)
      (entries : List (Yaml.Spelling × Yaml.Block)) (error : DraftError)
  deriving Repr

namespace Draft

def leadingEntries : List (Text × Yaml.Block) → List (Yaml.Spelling × Yaml.Block)
  | [] => []
  | (name, value) :: entries =>
    match Yaml.Spelling.ofName? name with
    | some name => (name, value) :: leadingEntries entries
    | none => []

def stopAt (done : List (Yaml.Spelling × Yaml.Block)) (key : Text) : Document → Draft
  | .table entries =>
    match Document.settledEntries? entries with
    | some entries => .stopped done.reverse key (leadingEntries entries) .malformedName
    | none => .stopped done.reverse key [] .unsettledValue
  | _ => .stopped done.reverse key [] .unsettledValue

def ofMembers (done : List (Yaml.Spelling × Yaml.Block)) : List (Text × Document) → Draft
  | [] => .finished (.map done.reverse)
  | (key, value) :: members =>
    match value.toBlock? with
    | some block => ofMembers ((.ofString key, block) :: done) members
    | none => stopAt done key value

def ofDocument : Document → Draft
  | .map members => ofMembers [] members
  | document =>
    match document.toBlock? with
    | some block => .finished block
    | none => .stopped [] [] [] .unsettledValue

def portionSize : Nat := 123

/-- How many bytes wait at the end; a portion goes out before a character that finds it full. -/
def waiting : (pending : Nat) → List Rune → Nat
  | pending, [] => pending
  | pending, rune :: runes =>
    if portionSize ≤ pending then waiting rune.bytes.length runes
    else waiting (pending + rune.bytes.length) runes

def portions (text : Text) : Text := text.take (text.length - waiting 0 text.runes)

/-- What has been written when the writing ends. A failing member has its key, without a colon. -/
def text (step : Nat) : Draft → Text
  | .finished block => block.render step
  | .stopped members key [] _ => (Yaml.Block.map members).render step ++ key
  | .stopped members key entries _ =>
    let block := Yaml.Block.map (members ++ [(.ofString key, .map entries)])
    if block.endsLine then block.render step else (block.render step).dropLast

def error? : Draft → Option DraftError
  | .finished _ => none
  | .stopped _ _ _ error => some error

def deliver (step : Nat) (isFirst : Bool) : List Draft → Text × Option DraftError
  | [] => ([], none)
  | draft :: drafts =>
    let text := (if isFirst then [] else utf8 "---\n") ++ draft.text step
    match draft.error? with
    | some error => (portions text, some error)
    | none =>
      let (further, error) := deliver step false drafts
      (text ++ further, error)

end Draft

end EntitySchema
