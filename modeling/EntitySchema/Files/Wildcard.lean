import EntitySchema.Text.Rune

/-!
Wildcard patterns: `?` stands for one character, `*` for any number of them, and brackets for one of
the characters in them. A backslash takes the meaning of the character behind it away.
-/

namespace EntitySchema

inductive WildcardSign where
  | char (char : Char)
  | one
  | many
  | oneOf (isNegated : Bool) (ranges : List (Char × Char))
  | never
  deriving DecidableEq, Repr

namespace Wildcard

def unit? : List Char → Option (Char × List Char)
  | '\\' :: char :: rest => some (char, rest)
  | ['\\'] => none
  | char :: rest => some (char, rest)
  | [] => none

def readRanges? : (fuel : Nat) → List Char → Option (List (Char × Char) × List Char)
  | 0, _ => none
  | fuel + 1, chars =>
    if chars.head? = some ']' then some ([], chars.drop 1)
    else do
      let (low, rest) ← unit? chars
      let (high, rest) ←
        match rest with
        | '-' :: next :: further => if next = ']' then some (low, rest) else unit? (next :: further)
        | rest => some (low, rest)
      let (ranges, rest) ← readRanges? fuel rest
      some ((low, high) :: ranges, rest)

def readClass (chars : List Char) : WildcardSign × List Char :=
  let isNegated := chars.head? = some '!' || chars.head? = some '^'
  let chars := if isNegated then chars.drop 1 else chars
  match readRanges? (chars.length + 1) chars with
  | some (ranges, rest) => (.oneOf isNegated ranges, rest)
  | none => (.never, [])

/-- The signs of a pattern. A backslash at its end stands for itself. -/
def readFrom : (fuel : Nat) → List Char → List WildcardSign
  | 0, _ => []
  | _ + 1, [] => []
  | fuel + 1, '?' :: rest => .one :: readFrom fuel rest
  | fuel + 1, '*' :: rest => .many :: readFrom fuel rest
  | fuel + 1, '[' :: rest =>
    let (sign, rest) := readClass rest
    sign :: readFrom fuel rest
  | fuel + 1, '\\' :: char :: rest => .char char :: readFrom fuel rest
  | fuel + 1, char :: rest => .char char :: readFrom fuel rest

def ofChars (pattern : List Char) : List WildcardSign := readFrom pattern.length pattern

def ends : List Char → List (List Char)
  | [] => [[]]
  | char :: rest => (char :: rest) :: ends rest

def coversOne (isBounded : Bool) (char : Char) : WildcardSign → Bool
  | .char expected => expected = char
  | .one => !(isBounded && char = '/')
  | .oneOf isNegated ranges =>
    !(isBounded && char = '/') &&
      (ranges.any fun (low, high) => low ≤ char && char ≤ high) != isNegated
  | .many => false
  | .never => false

/-- Whether a pattern covers a text; if it is bounded, wildcards do not reach beyond a slash. -/
def covers (isBounded : Bool) : (signs : List WildcardSign) → List Char → Bool
  | [], text => text.isEmpty
  | .many :: signs, text =>
    let reach := (text.takeWhile fun char => !(isBounded && char = '/')).length
    ((ends text).take (reach + 1)).any fun rest => covers isBounded signs rest
  | _ :: _, [] => false
  | sign :: signs, char :: rest => coversOne isBounded char sign && covers isBounded signs rest

end Wildcard

end EntitySchema
