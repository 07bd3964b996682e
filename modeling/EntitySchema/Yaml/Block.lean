import EntitySchema.Yaml.Spelling

/-!
The block layout of a tree of scalars, lists and maps. Each collection stands at a column; the
column of what it holds follows from the indentation step.
-/

namespace EntitySchema.Yaml

inductive Block where
  | scalar (spelling : Spelling)
  | list (items : List Block)
  | map (members : List (Spelling × Block))
  deriving Inhabited, Repr

namespace Block

def nestedColumn (step column : Nat) : Nat := step * ((column + step) / step)

def hang (column : Nat) (entries : List Text) : Text := Text.join (Text.spaces column) entries

def drop (column : Nat) (entries : List Text) : Text :=
  utf8 "\n" ++ Text.spaces column ++ hang column entries

mutual

def afterKey (step column : Nat) : Block → Text
  | .scalar spelling => utf8 " " ++ spelling.renderLine step (nestedColumn step column)
  | .list [] => utf8 " []\n"
  | .list items =>
    drop (nestedColumn step column) (itemEntries step (nestedColumn step column) items)
  | .map [] => utf8 " \x7b\x7d\n"
  | .map members =>
    drop (nestedColumn step column) (memberEntries step (nestedColumn step column) members)

def afterMark (step gap column : Nat) : Block → Text
  | .scalar spelling => utf8 " " ++ spelling.renderLine step column
  | .list [] => utf8 " []\n"
  | .list items => Text.spaces gap ++ hang column (itemEntries step column items)
  | .map [] => utf8 " \x7b\x7d\n"
  | .map members => Text.spaces gap ++ hang column (memberEntries step column members)

def itemEntries (step column : Nat) : List Block → List Text
  | [] => []
  | item :: items =>
    (utf8 "-" ++ item.afterMark step 1 (column + 2)) :: itemEntries step column items

/-- The members of a map at `column`. A key that is long or broken stands on lines of its own. -/
def memberEntries (step column : Nat) : List (Spelling × Block) → List Text
  | [] => []
  | (key, value) :: members =>
    let nested := nestedColumn step column
    let entry :=
      if key.isSimpleKey then
        key.render step nested true ++ utf8 ":" ++ value.afterKey step column
      else
        utf8 "? " ++ key.renderLine step nested ++ Text.spaces column ++ utf8 ":" ++
          value.afterMark step (nested - column - 1) nested
    entry :: memberEntries step column members

end

def render (step : Nat) : Block → Text
  | .scalar spelling => spelling.renderLine step step
  | .list [] => utf8 "[]\n"
  | .list items => hang 0 (itemEntries step 0 items)
  | .map [] => utf8 "\x7b\x7d\n"
  | .map members => hang 0 (memberEntries step 0 members)

mutual

def endsLine : Block → Bool
  | .scalar spelling => spelling.endsLine
  | .list items => itemsEndLine items
  | .map members => membersEndLine members

def itemsEndLine : List Block → Bool
  | [] => false
  | [item] => item.endsLine
  | _ :: item :: items => itemsEndLine (item :: items)

def membersEndLine : List (Spelling × Block) → Bool
  | [] => false
  | [(_, value)] => value.endsLine
  | _ :: member :: members => membersEndLine (member :: members)

end

mutual

def reread? : Block → Option Block
  | .scalar spelling => spelling.reread?.map .scalar
  | .list items => (rereadItems? items).map .list
  | .map members => (rereadMembers? members).map .map

def rereadItems? : List Block → Option (List Block)
  | [] => some []
  | item :: items =>
    match item.reread?, rereadItems? items with
    | some item, some items => some (item :: items)
    | _, _ => none

def rereadMembers? : List (Spelling × Block) → Option (List (Spelling × Block))
  | [] => some []
  | (key, value) :: members =>
    match key.reread?, value.reread?, rereadMembers? members with
    | some key, some value, some members => some ((key, value) :: members)
    | _, _, _ => none

end

end Block

end EntitySchema.Yaml
