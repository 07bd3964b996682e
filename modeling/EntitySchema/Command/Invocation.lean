import EntitySchema.Text.Letter
import EntitySchema.Text.Space

/-!
What a command line asks for. Flags and operands may be mixed, but an argument such as `->` or
`-1`, which looks like a flag and cannot be one, ends the flags.
-/

namespace EntitySchema

structure ParseOptions where
  format : Text := []
  out : Text := []
  omitTimestamps : Bool := false
  deriving DecidableEq, Repr

inductive Action where
  | parse (options : ParseOptions) (paths : List Text)
  | check (paths : List Text)
  | tokens (operands : List Text)
  | field (operands : List Text)
  | relation (operands : List Text)
  deriving DecidableEq, Repr

structure Invocation where
  isDebug : Bool := false
  config : Text := []
  action : Action
  deriving DecidableEq, Repr

structure Flag where
  names : List Text
  takesValue : Bool
  deriving DecidableEq, Repr

namespace Flag

def debug : Flag := ⟨[utf8 "debug"], false⟩

def config : Flag := ⟨[utf8 "config", utf8 "c"], true⟩

def format : Flag := ⟨[utf8 "format", utf8 "f"], true⟩

def out : Flag := ⟨[utf8 "out", utf8 "o"], true⟩

def noTimestamps : Flag := ⟨[utf8 "no-timestamps"], false⟩

abbrev Scan := List (Flag × Text) × List Text

def undashed (word : Text) : Text :=
  match word with
  | 0x2D :: 0x2D :: rest => rest
  | 0x2D :: rest => rest
  | rest => rest

def isOperand (word : Text) : Bool :=
  match word with
  | 0x2D :: second :: _ => second ≠ 0x2D && !Text.isLetter (Char.ofNat second.toNat)
  | _ => false

def ofWord? (flags : List Flag) (word : Text) : Option (Flag × Text) :=
  let spelled := undashed word
  let name := spelled.takeWhile fun byte => byte ≠ 0x3D
  (flags.find? fun flag => flag.names.contains name).map fun flag =>
    (flag, spelled.drop (name.length + 1))

/--
Divides arguments into flags and operands. White space around an operand does not count, and an
argument without anything else ends the line, as does a dash alone; two dashes, and the name of a
command, leave the arguments behind them as they are. There is no answer if a flag is not known or
lacks its value.
-/
def scan? (flags : List Flag) (commands : List Text) : List Text → Option Scan
  | [] => some ([], [])
  | argument :: rest =>
    let word := Text.trim argument
    if word.isEmpty then some ([], [])
    else if word = utf8 "--" then some ([], rest)
    else if word.head? ≠ some 0x2D then
      if commands.contains word then some ([], argument :: rest)
      else (scan? flags commands rest).map fun (taken, operands) => (taken, word :: operands)
    else if word.length = 1 then some ([], [word])
    else if isOperand word then some ([], argument :: rest)
    else
      match ofWord? flags word, rest with
      | none, _ => none
      | some (flag, value), rest =>
        if !flag.takesValue || !value.isEmpty then
          (scan? flags commands rest).map fun (taken, operands) =>
            ((flag, value) :: taken, operands)
        else
          match rest with
          | [] => none
          | value :: rest =>
            (scan? flags commands rest).map fun (taken, operands) =>
              ((flag, value) :: taken, operands)

def valueIn (flag : Flag) (taken : List (Flag × Text)) : Text :=
  (taken.reverse.lookup flag).getD []

def isIn (flag : Flag) (taken : List (Flag × Text)) : Bool :=
  taken.any fun entry => entry.1 = flag

end Flag

namespace Invocation

def globalFlags : List Flag := [.debug, .config]

def parseFlags : List Flag := [.format, .out, .noTimestamps]

def commandNames : List Text :=
  [utf8 "parse", utf8 "check", utf8 "tokens", utf8 "field", utf8 "relation"]

def action? (command : Text) (taken : List (Flag × Text)) (operands : List Text) : Option Action :=
  if command = utf8 "parse" then
    some <| .parse
      { format := Flag.format.valueIn taken
        out := Flag.out.valueIn taken
        omitTimestamps := Flag.noTimestamps.isIn taken } operands
  else if command = utf8 "check" then some (.check operands)
  else if command = utf8 "tokens" then some (.tokens operands)
  else if command = utf8 "field" then some (.field operands)
  else if command = utf8 "relation" then some (.relation operands)
  else none

/-- What the arguments ask for; none if they name no command or are not understood. -/
def ofArguments? (arguments : List Text) : Option Invocation :=
  match Flag.scan? globalFlags commandNames arguments with
  | some (before, command :: rest) =>
    let ownFlags := if command = utf8 "parse" then parseFlags else []
    match Flag.scan? (globalFlags ++ ownFlags) [] rest with
    | none => none
    | some (after, operands) =>
      let taken := before ++ after
      (action? command taken operands).map fun action =>
        { isDebug := Flag.debug.isIn taken, config := Flag.config.valueIn taken, action := action }
  | _ => none

end Invocation

end EntitySchema
