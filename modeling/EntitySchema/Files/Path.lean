import EntitySchema.Text.Basic

/-!
Paths as texts: parts divided by slashes, absolute if they start with one. Everything here looks
at the text only; which files exist is not asked.
-/

namespace EntitySchema.Path

def slash : Byte := 0x2F

def current : Text := utf8 "."

def parent : Text := utf8 ".."

def isAbsolute (path : Text) : Bool := path.head? = some slash

def parts (path : Text) : List Text := Text.splitOn slash path

def addPart (rooted : Bool) (done : List Text) (part : Text) : List Text :=
  if part.isEmpty || part = current then done
  else if part = parent then
    match done with
    | [] => if rooted then [] else [parent]
    | last :: before => if last = parent then parent :: done else before
  else part :: done

/-- The parts of a path without empty ones, `.`, and `..` that can be resolved in the text. -/
def simplify (path : Text) : List Text :=
  ((parts path).foldl (addPart (isAbsolute path)) []).reverse

def ofParts (parts : List Text) : Text := slash :: Text.join [slash] parts

def clean (path : Text) : Text :=
  if isAbsolute path then ofParts (simplify path)
  else
    match simplify path with
    | [] => current
    | parts => Text.join [slash] parts

def join (base path : Text) : Text :=
  if base.isEmpty then if path.isEmpty then [] else clean path
  else clean (base ++ [slash] ++ path)

def absolute (directory path : Text) : Text :=
  if isAbsolute path then clean path else join directory path

def baseName (path : Text) : Text := (path.reverse.takeWhile fun byte => byte ≠ slash).reverse

def directory (path : Text) : Text :=
  clean (path.take (path.length - (baseName path).length))

def extension (path : Text) : Text :=
  let name := baseName path
  let tail := (name.reverse.takeWhile fun byte => byte ≠ 0x2E).reverse
  if tail.length < name.length then 0x2E :: tail else []

def ancestors (parts : List Text) : List (List Text) :=
  (List.range (parts.length + 1)).reverse.map fun count => parts.take count

end EntitySchema.Path
