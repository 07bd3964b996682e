import EntitySchema.Yaml.Resolve

/-!
Reading a node into a known shape: a text, a list of texts, or a group of named members. Members
of other names are passed over, a null leaves a member unset, and a merge key adds the members of
other mappings behind those that are written out. Reading fails if an alias is met again while it
is followed, or if too much of the work is done for aliases.
-/

namespace EntitySchema.Yaml

inductive Shape where
  | text
  | texts
  | group (members : List (Text × Shape))
  deriving Inhabited, Repr

inductive Setting where
  | text (text : Text)
  | texts (texts : List Text)
  /-- The members that are set, and those that are left unset by a null. -/
  | group (members : List (Text × Option Setting))
  deriving Inhabited, Repr

structure Effort where
  steps : Nat := 0
  aliased : Nat := 0
  deriving DecidableEq, Repr

namespace Effort

/--
Whether aliases make up too much of the work: more than 99 in 100 steps, and beyond 400000 steps an
evenly falling part, down to 10 in 100 at 4000000 steps. A small number of either is never too much.
-/
def isExcessive (effort : Effort) : Bool :=
  let most :=
    if effort.steps ≤ 400000 then 99 * 3600000
    else if 4000000 ≤ effort.steps then 10 * 3600000
    else 99 * 3600000 - 89 * (effort.steps - 400000)
  100 < effort.aliased && 1000 < effort.steps &&
    most * effort.steps < 100 * 3600000 * effort.aliased

def step? (effort : Effort) (isAliased : Bool) : Option Effort :=
  let effort : Effort := ⟨effort.steps + 1, effort.aliased + if isAliased then 1 else 0⟩
  if effort.isExcessive then none else some effort

end Effort

namespace Node

def isMergeKey : Node → Bool
  | .scalar tag style text _ =>
    text = utf8 "<<" && (tag = some (utf8 "!!merge") || (tag = none && style = .plain))
  | _ => false

def isWrittenAs : Node → Node → Bool
  | .scalar _ _ left _, .scalar _ _ right _ => left = right
  | .alias left .., .alias right .. => left = right
  | .alias left .., .enclosing right .. => left = right
  | .enclosing left .., .alias right .. => left = right
  | .enclosing left .., .enclosing right .. => left = right
  | .sequence .., .sequence .. => true
  | .mapping .., .mapping .. => true
  | _, _ => false

def hasRepeatedKey : List (Node × Node) → Bool
  | [] => false
  | (key, _) :: pairs => (pairs.any fun pair => key.isWrittenAs pair.1) || hasRepeatedKey pairs

/-- Goes over a key once more; none of them can be an alias to a collection. -/
def retraceKey? (isAliased : Bool) (effort : Effort) : Node → Option Effort
  | .alias _ target _ _ =>
    (effort.step? isAliased).bind fun effort => target.retraceKey? true effort
  | .enclosing .. => none
  | _ => effort.step? isAliased

def retraceKeys? (isAliased : Bool) (effort : Effort) (pairs : List (Node × Node)) :
    Option Effort :=
  pairs.foldlM (fun effort pair => pair.1.retraceKey? isAliased effort) effort

def scalarSetting? (shape : Shape) (value : Value) (text : Text) : Option (Option Setting) :=
  match value, shape with
  | .null, _ => some none
  | .string decoded, .text => some (some (.text decoded))
  | _, .text => some (some (.text text))
  | _, _ => none

end Node

structure GroupState where
  members : List (Text × Option Setting) := []
  /-- While mappings are merged, the names that are settled already. -/
  settled : Option (List Text) := none
  effort : Effort

namespace GroupState

def isSettled (state : GroupState) (name : Text) : Bool :=
  state.settled.any fun names => names.contains name

def settle (state : GroupState) (name : Text) : GroupState :=
  { state with settled := state.settled.map fun names => name :: names }

/--
Reads a mapping into a group: first its own pairs, then what is merged into it. The names of its
own pairs are settled before other mappings are merged.
-/
def readMapping? (state : GroupState) (isAliased : Bool) (pairs : List (Node × Node))
    (readPairs? readMerge? : GroupState → Option GroupState) : Option GroupState :=
  if Node.hasRepeatedKey pairs then none
  else do
    let state ← readPairs? state
    if pairs.any fun pair => pair.1.isMergeKey then
      match state.settled with
      | some _ => readMerge? state
      | none =>
        let effort ← Node.retraceKeys? isAliased state.effort pairs
        let names := state.members.map Prod.fst
        let merged ← readMerge? { state with settled := some names, effort := effort }
        some { merged with settled := none }
    else some state

end GroupState

/--
How the nodes are read that aliases inside them stand for, each told by the number of its anchor:
as a shape, or merged into a group. The list holds the aliases that are being followed.
-/
structure Enclosing where
  readAs? : (order : Nat) → List Nat → Shape → Effort → Option (Option Setting × Effort)
  readMerged? : (order : Nat) → List Nat → List (Text × Shape) → GroupState → Option GroupState

namespace Node

def enter? (followed : List Nat) (serial : Nat) (effort : Effort) : Option Effort :=
  if followed.contains serial then none else effort.step? (!followed.isEmpty)

section Reading

variable (around : Enclosing)

mutual

def readAs? (shape : Shape) (followed : List Nat) (effort : Effort) :
    Node → Option (Option Setting × Effort)
  | .alias _ target _ serial =>
    match enter? followed serial effort with
    | none => none
    | some effort => target.readAs? shape (serial :: followed) effort
  | .enclosing _ order _ serial =>
    match enter? followed serial effort with
    | none => none
    | some effort => around.readAs? order (serial :: followed) shape effort
  | .scalar tag style text _ => do
    let effort ← effort.step? (!followed.isEmpty)
    let value ← scalarValue? tag style text
    let setting ← scalarSetting? shape value text
    some (setting, effort)
  | .sequence _ items _ =>
    match shape, effort.step? (!followed.isEmpty) with
    | .texts, some effort =>
      (readTexts? followed effort items).map fun (texts, effort) => (some (.texts texts), effort)
    | _, _ => none
  | .mapping _ pairs _ =>
    match shape, effort.step? (!followed.isEmpty) with
    | .group members, some effort =>
      ((GroupState.mk [] none effort).readMapping? (!followed.isEmpty) pairs
        (fun state => readPairs? members followed state pairs)
        (fun state => readMerge? members followed state pairs)).map fun state =>
          (some (.group state.members), state.effort)
    | _, _ => none

def readTexts? (followed : List Nat) (effort : Effort) :
    List Node → Option (List Text × Effort)
  | [] => some ([], effort)
  | item :: items =>
    match item.readAs? .text followed effort with
    | none => none
    | some (setting, effort) =>
      (readTexts? followed effort items).map fun (texts, effort) =>
        match setting with
        | some (.text text) => (text :: texts, effort)
        | _ => (texts, effort)

def readPairs? (members : List (Text × Shape)) (followed : List Nat) (state : GroupState) :
    List (Node × Node) → Option GroupState
  | [] => some state
  | (key, value) :: pairs =>
    if key.isMergeKey then readPairs? members followed state pairs
    else
      match key.readAs? .text followed state.effort with
      | none => none
      | some (some (.text name), effort) =>
        let state := { state with effort := effort }
        if state.isSettled name then readPairs? members followed state pairs
        else
          let state := state.settle name
          match members.lookup name with
          | none => readPairs? members followed state pairs
          | some shape =>
            if (state.members.lookup name).isSome then none
            else
              match value.readAs? shape followed effort with
              | none => none
              | some (setting, effort) =>
                readPairs? members followed
                  { state with members := (name, setting) :: state.members, effort := effort }
                  pairs
      | some (_, effort) => readPairs? members followed { state with effort := effort } pairs

def readMerge? (members : List (Text × Shape)) (followed : List Nat) (state : GroupState) :
    List (Node × Node) → Option GroupState
  | [] => some state
  | (key, value) :: pairs =>
    if key.isMergeKey && !pairs.any fun pair => pair.1.isMergeKey then
      match value with
      | .sequence _ items _ => readMergedItems? members followed state items
      | value => value.readMerged? members followed state
    else readMerge? members followed state pairs

def readMergedItems? (members : List (Text × Shape)) (followed : List Nat) (state : GroupState) :
    List Node → Option GroupState
  | [] => some state
  | item :: items =>
    match item.readMerged? members followed state with
    | none => none
    | some state => readMergedItems? members followed state items

def readMerged? (members : List (Text × Shape)) (followed : List Nat) (state : GroupState) :
    Node → Option GroupState
  | .mapping _ pairs _ =>
    match state.effort.step? (!followed.isEmpty) with
    | none => none
    | some effort =>
      { state with effort := effort }.readMapping? (!followed.isEmpty) pairs
        (fun state => readPairs? members followed state pairs)
        (fun state => readMerge? members followed state pairs)
  | .alias _ target _ serial =>
    match enter? followed serial state.effort with
    | none => none
    | some effort =>
      target.readMerged? members (serial :: followed) { state with effort := effort }
  | .enclosing _ order _ serial =>
    match enter? followed serial state.effort with
    | none => none
    | some effort =>
      around.readMerged? order (serial :: followed) members { state with effort := effort }
  | _ => none

end

end Reading

end Node

/--
The nodes that have been read in a stream. No alias is followed inside itself, so that the number of
aliases bounds how often one leads back to a node around it.
-/
def Enclosing.ofStream (stream : Stream) : (aliases : Nat) → Enclosing
  | 0 => ⟨fun _ _ _ _ => none, fun _ _ _ _ => none⟩
  | aliases + 1 =>
    { readAs? := fun order followed shape effort =>
        (stream.nodeAt? order).bind fun node =>
          node.readAs? (ofStream stream aliases) shape followed effort
      readMerged? := fun order followed members state =>
        (stream.nodeAt? order).bind fun node =>
          node.readMerged? (ofStream stream aliases) members followed state }

def Node.readSettings? (members : List (Text × Shape)) (root : Node) (rest : Stream) :
    Option (List (Text × Option Setting)) :=
  match root.readAs? (.ofStream rest rest.size) (.group members) [] ⟨1, 0⟩ with
  | none => none
  | some (some (.group settings), _) => some settings
  | some _ => some []

end EntitySchema.Yaml
