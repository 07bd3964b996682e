import EntitySchema.Files.Path
import EntitySchema.Files.Wildcard
import EntitySchema.Text.Space

/-!
Ignore files: each line is a rule that leaves out the files and directories whose names match it,
or takes them in again. A rule file speaks about the paths below its own directory.
-/

namespace EntitySchema

inductive IgnorePart where
  | slash
  | anyDepth
  | blank (chars : List Char)
  | word (chars : List Char)
  deriving DecidableEq, Repr

namespace IgnorePart

def isBlankChar (char : Char) : Bool := char = ' ' || char = '\t'

def isBlank : IgnorePart → Bool
  | .blank _ => true
  | _ => false

def wordSize : List Char → Nat
  | [] => 0
  | '\\' :: _ :: rest => wordSize rest + 2
  | '*' :: '*' :: _ => 0
  | char :: rest => if char = '/' || isBlankChar char then 0 else wordSize rest + 1

def partsFrom : (fuel : Nat) → List Char → List IgnorePart
  | 0, _ => []
  | _ + 1, [] => []
  | fuel + 1, '/' :: rest => .slash :: partsFrom fuel rest
  | fuel + 1, '*' :: '*' :: rest => .anyDepth :: partsFrom fuel rest
  | fuel + 1, chars =>
    if chars.head?.any isBlankChar then
      .blank (chars.takeWhile isBlankChar) :: partsFrom fuel (chars.dropWhile isBlankChar)
    else
      let size := wordSize chars
      .word (chars.take size) :: partsFrom fuel (chars.drop size)

def mayPrecede : IgnorePart → IgnorePart → Bool
  | .slash, next => next != .slash
  | .anyDepth, next => next == .slash
  | _, next => next != .anyDepth

/-- The parts of a rule, if they may stand together. Blanks behind two stars do not count. -/
def checked? : List IgnorePart → Option (List IgnorePart)
  | [] => some []
  | [part] => some [part]
  | [.anyDepth, .blank _] => some [.anyDepth]
  | part :: next :: parts =>
    if part.mayPrecede next then (checked? (next :: parts)).map (part :: ·) else none

def chars : IgnorePart → List Char
  | .slash => ['/']
  | .anyDepth => ['*', '*']
  | .blank chars => chars
  | .word chars => chars

def coverNames : List IgnorePart → List (List Char) → Bool
  | [], names => names.isEmpty
  | .anyDepth :: parts, names =>
    (List.range (names.length + 1)).any fun count => coverNames parts (names.drop count)
  | _ :: _, [] => false
  | part :: parts, name :: names =>
    Wildcard.covers true (Wildcard.ofChars part.chars) name && coverNames parts names

end IgnorePart

structure IgnoreRule where
  /-- Takes in again what an earlier rule left out. -/
  isNegated : Bool
  /-- Holds for the directory of the rule file only, not for those below it. -/
  isAnchored : Bool
  directoriesOnly : Bool
  parts : List IgnorePart
  deriving DecidableEq, Repr

namespace IgnoreRule

def ofParts? (isNegated : Bool) (parts : List IgnorePart) : Option IgnoreRule :=
  let isAnchored := parts.head? = some .slash
  let parts := if isAnchored then parts.drop 1 else parts
  let directoriesOnly := parts.getLast? = some .slash
  let parts := if directoriesOnly then parts.dropLast else parts
  if parts.isEmpty then none else some { isNegated, isAnchored, directoriesOnly, parts }

/--
The rule of a line; comments and lines that make no sense hold none. Blanks at the end count only
in a rule that takes in again.
-/
def ofLine? (line : List Char) : Option IgnoreRule :=
  let isNegated := line.head? = some '!'
  let text := if isNegated then line.drop 1 else line
  if line.head? = some '#' || line.contains '\r' then none
  else
    match IgnorePart.checked? (IgnorePart.partsFrom text.length text) with
    | none => none
    | some parts =>
      ofParts? isNegated
        (if isNegated then parts else (parts.reverse.dropWhile IgnorePart.isBlank).reverse)

def names : List Char → List (List Char)
  | [] => [[]]
  | char :: rest =>
    if char = '/' then [] :: names rest
    else match names rest with
      | [] => [[char]]
      | name :: others => (char :: name) :: others

def appliesTo (rule : IgnoreRule) (isDirectory : Bool) (path : List Char) : Bool :=
  let pattern := Wildcard.ofChars (rule.parts.flatMap IgnorePart.chars)
  if rule.directoriesOnly && !isDirectory then false
  else if rule.parts.contains .anyDepth then
    IgnorePart.coverNames (rule.parts.filter fun part => part != .slash) (names path)
  else if rule.parts.contains .slash then Wildcard.covers true pattern path
  else if rule.isAnchored then Wildcard.covers false pattern path
  else Wildcard.covers false pattern ((names path).getLastD [])

end IgnoreRule

structure IgnoreFile where
  base : Text
  rules : List IgnoreRule
  deriving DecidableEq, Repr

namespace IgnoreFile

def lines : List Char → List (List Char)
  | [] => [[]]
  | '\r' :: '\n' :: rest => [] :: lines rest
  | '\n' :: rest => [] :: lines rest
  | char :: rest =>
    match lines rest with
    | [] => [[char]]
    | line :: others => (char :: line) :: others

def ofText (base content : Text) : IgnoreFile :=
  let chars := (Text.runes (content.takeWhile fun byte => byte ≠ 0)).map Rune.char
  { base := base, rules := (lines chars).filterMap IgnoreRule.ofLine? }

/--
What a file says about a path: left out, taken in, or nothing. The last rule that applies decides.
Only paths that are spelled from the base of the file on lie below it.
-/
def verdict? (file : IgnoreFile) (isDirectory : Bool) (path : Text) : Option Bool :=
  match Text.dropPrefix? (file.base ++ [Path.slash]) path with
  | none => none
  | some below =>
    let chars := below.runes.map Rune.char
    (file.rules.reverse.find? fun rule => rule.appliesTo isDirectory chars).map fun rule =>
      !rule.isNegated

def moduleOf? (line : Text) : Option Text := do
  let isGap := fun byte : Byte => byte = 0x20 || byte = 0x09 || byte = 0x0C || byte = 0x0D
  let rest ← Text.dropPrefix? (utf8 "path") (line.dropWhile isGap)
  let rest ← Text.dropPrefix? (utf8 "=") (rest.dropWhile isGap)
  some (Text.trim rest)

def ofModules (base content : Text) : List IgnoreFile :=
  ((Text.splitOn 0x0A content).filterMap moduleOf?).map (ofText base)

end IgnoreFile

structure Exclusions where
  tracked : List IgnoreFile := []
  general : List IgnoreFile := []
  modules : List IgnoreFile := []
  deriving DecidableEq, Repr

namespace Exclusions

def trackedName : Text := utf8 ".gitignore"

def generalName : Text := utf8 ".ignore"

def modulesName : Text := utf8 ".gitmodules"

def fileNames : List Text := [trackedName, generalName, modulesName]

def add (exclusions : Exclusions) (base name content : Text) : Exclusions :=
  if name = trackedName then
    { exclusions with tracked := exclusions.tracked ++ [IgnoreFile.ofText base content] }
  else if name = generalName then
    { exclusions with general := exclusions.general ++ [IgnoreFile.ofText base content] }
  else if name = modulesName then
    { exclusions with modules := exclusions.modules ++ IgnoreFile.ofModules base content }
  else exclusions

def files (exclusions : Exclusions) (isDirectory : Bool) : List IgnoreFile :=
  exclusions.tracked ++ exclusions.general ++ if isDirectory then exclusions.modules else []

/-- Whether a path is left out: the last file that says something about it decides. -/
def leavesOut (exclusions : Exclusions) (isDirectory : Bool) (path : Text) : Bool :=
  (exclusions.files isDirectory).foldl
    (fun isLeftOut file => (file.verdict? isDirectory path).getD isLeftOut) false

end Exclusions

end EntitySchema
