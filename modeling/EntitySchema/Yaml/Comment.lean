import EntitySchema.Yaml.Source

/-!
Comments, which are looked for ahead of the place where the next token may start. How far the
search looks decides which pieces of a stream are fetched.
-/

namespace EntitySchema.Yaml.Source

def commentReach : Nat := 512

def skipLineComment (source : Source) : Source :=
  let blanks := ((source.rest.take commentReach).takeWhile isBlank).length
  let source := source.want (min (blanks + 1) commentReach)
  if blanks < commentReach && source.peekAt? blanks == some '#' then
    (source.skipMany blanks).skipToBreak
  else source

def skipTo (index : Nat) : (fuel : Nat) → Source → Source
  | 0, source => source
  | fuel + 1, source =>
    if index ≤ source.index then source
    else skipTo index fuel (if source.isAtBreak then source.skipLine else source.skip)

def isPlainSpace (char : Char) : Bool := isBlank char || char = '\n' || char = '\r'

/--
Moves over a comment and those that follow it, with nothing but blanks and line breaks between
them, to the end of the line of the last one.
-/
def skipComments : (fuel : Nat) → Source → Source
  | 0, source => source
  | fuel + 1, source =>
    let source := source.skipToBreak
    if source.nextIs '\n' || source.nextIs '\r' then
      let spaces := ((source.rest.take commentReach).takeWhile isPlainSpace).length
      let source := source.want (min (spaces + 1) commentReach)
      if spaces < commentReach && source.peekAt? spaces == some '#' then
        skipComments fuel (source.skipTo (source.index + spaces) spaces)
      else source
    else source.want 2

end EntitySchema.Yaml.Source
