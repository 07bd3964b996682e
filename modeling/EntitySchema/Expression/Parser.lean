import EntitySchema.Token.Basic

/-!
Parsers over lexemes with a bounded lookahead. A parser matches, does not match, or fails at a
token. Choices and repetitions forgive a failure that came after at most `lookahead` tokens and
go on without that part; a later failure is final. The deepest failure seen is remembered, and
explains the rejection when the parse stops before the end of the text.
-/

namespace EntitySchema.Expression

/-- Which token was refused, and what would have been accepted in its place if that is known. -/
structure Failure where
  index : Nat
  expected : Option Text
  deriving DecidableEq, Repr

structure Cursor where
  index : Nat
  rest : List Lexeme
  deepestAt : Nat
  deepest : Option Failure
  deriving DecidableEq, Repr

inductive Outcome (α : Type) where
  | matched (value : α) (cursor : Cursor)
  | unmatched
  | failed (failure : Failure) (cursor : Cursor)

abbrev Parser (α : Type) := Cursor → Outcome α

def lookahead : Nat := 2

namespace Cursor

def start (lexemes : List Lexeme) : Cursor := ⟨0, lexemes, 0, none⟩

def note (cursor : Cursor) (failure : Failure) : Cursor :=
  if cursor.deepestAt ≤ cursor.index then
    { cursor with deepest := some failure, deepestAt := cursor.index }
  else cursor

def accept (cursor branch : Cursor) : Cursor :=
  if cursor.deepestAt ≤ branch.deepestAt then branch
  else { branch with deepest := cursor.deepest, deepestAt := cursor.deepestAt }

def learn (cursor : Cursor) (failure : Failure) (branch : Cursor) : Cursor :=
  if cursor.deepestAt < branch.deepestAt then
    { cursor with deepest := branch.deepest, deepestAt := branch.deepestAt }
  else if cursor.deepestAt ≤ branch.index then
    { cursor with deepest := some failure, deepestAt := max branch.index branch.deepestAt }
  else cursor

def isCommitted (cursor branch : Cursor) : Bool := cursor.index + lookahead < branch.index

end Cursor

namespace Parser

variable {α β : Type}

def lexeme (test : Lexeme → Bool) : Parser Lexeme := fun cursor =>
  match cursor.rest with
  | [] => .unmatched
  | first :: rest =>
    if test first then .matched first { cursor with index := cursor.index + 1, rest := rest }
    else .unmatched

def ofKind (kind : TokenKind) : Parser Lexeme := lexeme fun candidate => candidate.kind = kind

def map (transform : α → β) (parser : Parser α) : Parser β := fun cursor =>
  match parser cursor with
  | .matched value next => .matched (transform value) next
  | .unmatched => .unmatched
  | .failed failure next => .failed failure next

def followedBy (parser : Parser α) (expected : Text) (continuation : Parser β) : Parser (α × β) :=
  fun cursor =>
    match parser cursor with
    | .unmatched => .unmatched
    | .failed failure next => .failed failure next
    | .matched value next =>
      match continuation next with
      | .matched second final => .matched (value, second) final
      | .unmatched => .failed ⟨next.index, some expected⟩ next
      | .failed failure final => .failed failure final

def andThen (parser : Parser α) (continuation : Parser β) : Parser (α × β) := fun cursor =>
  match parser cursor with
  | .unmatched => .unmatched
  | .failed failure next => .failed failure next
  | .matched value next => map (fun second => (value, second)) continuation next

/-- Tries alternatives in order; of forgiven failures the last of the furthest is kept. -/
def firstOfFrom (kept : Option (Nat × Failure)) : List (Parser α) → Parser α
  | [], cursor =>
    match kept with
    | some (_, failure) => .failed failure (cursor.note failure)
    | none => .unmatched
  | parser :: parsers, cursor =>
    match parser cursor with
    | .matched value branch => .matched value (cursor.accept branch)
    | .unmatched => firstOfFrom kept parsers cursor
    | .failed failure branch =>
      let learnt := cursor.learn failure branch
      if cursor.isCommitted branch then .failed failure (learnt.accept branch)
      else if (kept.map Prod.fst).getD 0 ≤ branch.index then
        firstOfFrom (some (branch.index, failure)) parsers learnt
      else firstOfFrom kept parsers learnt

def firstOf (parsers : List (Parser α)) : Parser α := firstOfFrom none parsers

def forgive (cursor : Cursor) (failure : Failure) (branch : Cursor) (otherwise : α) : Outcome α :=
  let learnt := (cursor.note failure).learn failure branch
  if cursor.isCommitted branch then .failed failure (learnt.accept branch)
  else .matched otherwise learnt

def optional (parser : Parser α) : Parser (Option α) := fun cursor =>
  match parser cursor with
  | .matched value branch => .matched (some value) (cursor.accept branch)
  | .unmatched => .matched none cursor
  | .failed failure branch => forgive cursor failure branch none

def manyUpTo (parser : Parser α) : (limit : Nat) → (done : List α) → Parser (List α)
  | 0, done, cursor => .matched done.reverse cursor
  | limit + 1, done, cursor =>
    match parser cursor with
    | .matched value branch => manyUpTo parser limit (value :: done) (cursor.accept branch)
    | .unmatched => .matched done.reverse cursor
    | .failed failure branch => forgive cursor failure branch done.reverse

/-- The part as often as it matches; each match takes a lexeme, so their number is a bound. -/
def many (parser : Parser α) : Parser (List α) := fun cursor =>
  manyUpTo parser cursor.rest.length [] cursor

def node (parser : Parser α) : Parser α := fun cursor =>
  match parser cursor with
  | .failed failure branch => .failed failure (branch.note failure)
  | outcome => outcome

def located (parser : Parser α) : Parser (Nat × α) := fun cursor =>
  map (fun value => (cursor.index, value)) parser cursor

def parseAll (parser : Parser α) (lexemes : List Lexeme) : Except Failure α :=
  match parser (Cursor.start lexemes) with
  | .unmatched => .error ⟨0, none⟩
  | .failed failure _ => .error failure
  | .matched value cursor =>
    if cursor.rest.isEmpty then .ok value
    else if cursor.index < cursor.deepestAt then .error (cursor.deepest.getD ⟨cursor.index, none⟩)
    else .error ⟨cursor.index, none⟩

end Parser

end EntitySchema.Expression
