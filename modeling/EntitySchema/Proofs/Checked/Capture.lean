import EntitySchema.Expression.Grammar
import Mathlib.Tactic.SplitIfs

/-!
What the parser of a field hands over. A suffix and a default are records with one member for each
of their alternatives, of which the alternative that matched has filled its own. Parsers commute
with a change of what they give, so these records are images of the suffixes and defaults read.
-/

namespace EntitySchema.Expression

namespace Parser

variable {α β γ δ : Type}

theorem map_map (after : β → γ) (transform : α → β) (parser : Parser α) :
    map after (map transform parser) = map (fun value => after (transform value)) parser := by
  funext cursor
  simp only [map]
  cases parser cursor <;> rfl

theorem map_id (parser : Parser α) : map id parser = parser := by
  funext cursor
  simp only [map]
  cases parser cursor <;> rfl

theorem node_map (transform : α → β) (parser : Parser α) :
    node (map transform parser) = map transform (node parser) := by
  funext cursor
  simp only [node, map]
  cases parser cursor <;> rfl

theorem located_map (transform : α → β) (parser : Parser α) :
    located (map transform parser) = map (Prod.map id transform) (located parser) := by
  funext cursor
  simp only [located, map]
  cases parser cursor <;> rfl

theorem andThen_map (transform : α → β) (other : γ → δ) (parser : Parser α)
    (continuation : Parser γ) :
    andThen (map transform parser) (map other continuation) =
      map (Prod.map transform other) (andThen parser continuation) := by
  funext cursor
  simp only [andThen, map]
  cases parser cursor with
  | unmatched => rfl
  | failed failure next => rfl
  | matched value next =>
      dsimp only
      cases continuation next <;> rfl

theorem followedBy_map (other : γ → δ) (parser : Parser α) (expected : Text)
    (continuation : Parser γ) :
    followedBy parser expected (map other continuation) =
      map (Prod.map id other) (followedBy parser expected continuation) := by
  funext cursor
  simp only [followedBy, map]
  cases parser cursor with
  | unmatched => rfl
  | failed failure next => rfl
  | matched value next =>
      dsimp only
      cases continuation next <;> rfl

theorem firstOfFrom_map (transform : α → β) (parsers : List (Parser α))
    (kept : Option (Nat × Failure)) :
    firstOfFrom kept (parsers.map (map transform)) = map transform (firstOfFrom kept parsers) := by
  funext cursor
  induction parsers generalizing kept cursor with
  | nil =>
      simp only [List.map_nil, firstOfFrom, map]
      cases kept <;> rfl
  | cons parser parsers ih =>
      simp only [List.map_cons, firstOfFrom, map]
      cases parser cursor with
      | matched value branch => rfl
      | unmatched => exact ih kept cursor
      | failed failure branch =>
          dsimp only
          split_ifs
          · rfl
          · exact ih _ _
          · exact ih _ _

theorem firstOf_map (transform : α → β) (parsers : List (Parser α)) :
    firstOf (parsers.map (map transform)) = map transform (firstOf parsers) :=
  firstOfFrom_map transform parsers none

theorem optional_map (transform : α → β) (parser : Parser α) :
    optional (map transform parser) = map (Option.map transform) (optional parser) := by
  funext cursor
  simp only [optional, map, forgive]
  cases parser cursor with
  | matched value branch => rfl
  | unmatched => rfl
  | failed failure branch =>
      dsimp only
      split_ifs <;> rfl

theorem manyUpTo_map (transform : α → β) (parser : Parser α) (limit : Nat) (done : List α) :
    manyUpTo (map transform parser) limit (done.map transform) =
      map (List.map transform) (manyUpTo parser limit done) := by
  funext cursor
  induction limit generalizing done cursor with
  | zero => simp only [manyUpTo, map, List.map_reverse]
  | succ limit ih =>
      simp only [manyUpTo, map, forgive]
      cases parser cursor with
      | matched value branch => exact ih (value :: done) (cursor.accept branch)
      | unmatched => simp only [List.map_reverse]
      | failed failure branch =>
          dsimp only
          split_ifs
          · rfl
          · simp only [List.map_reverse]

theorem many_map (transform : α → β) (parser : Parser α) :
    many (map transform parser) = map (List.map transform) (many parser) := by
  funext cursor
  exact congrFun (manyUpTo_map transform parser cursor.rest.length []) cursor

theorem parseAll_map (transform : α → β) (parser : Parser α) (lexemes : List Lexeme) :
    (map transform parser).parseAll lexemes = (parser.parseAll lexemes).map transform := by
  simp only [parseAll, map]
  cases parser (Cursor.start lexemes) with
  | unmatched => rfl
  | failed failure branch => rfl
  | matched value cursor =>
      dsimp only
      split_ifs <;> rfl

end Parser

structure SuffixCapture where
  array : Bool := false
  modifier : Text := []

structure DefaultCapture where
  call : Option Text := none
  word : Option Text := none
  number : Option Text := none
  string : Option Text := none
  object : Bool := false
  array : Bool := false

structure FieldCapture where
  base : TypeSyntax
  suffixes : List (Nat × SuffixCapture)
  default : Option (Nat × DefaultCapture)

def Suffix.capture : Suffix → SuffixCapture
  | .array => { array := true }
  | .modifier text => { modifier := text }

def DefaultSyntax.capture : DefaultSyntax → DefaultCapture
  | .call name => { call := some name }
  | .word text => { word := some text }
  | .number text => { number := some text }
  | .string text => { string := some text }
  | .object => { object := true }
  | .array => { array := true }

def FieldSyntax.capture (parsed : FieldSyntax) : FieldCapture :=
  ⟨parsed.base, parsed.suffixes.map (Prod.map id Suffix.capture),
    parsed.default.map (Prod.map id DefaultSyntax.capture)⟩

namespace Grammar

open EntitySchema.Expression.Parser

def suffixCapture : Parser (Nat × SuffixCapture) :=
  node <| located <| firstOf
    [map (fun _ => { array := true }) arraySuffix,
      map (fun found => { modifier := found.text }) (ofKind .modifier)]

def defaultCapture : Parser (Nat × DefaultCapture) :=
  node <| located <| firstOf
    [map (fun found => { call := some found.1.1.text }) <|
        followedBy (followedBy name (utf8 "\"(\" \")\"") (ofKind .lParen)) (utf8 "\")\"")
          (ofKind .rParen),
      map (fun found => { word := some found.text }) (ofKind .ident),
      map (fun found => { number := some found.text }) (ofKind .number),
      map (fun found => { string := some found.text }) (ofKind .string),
      map (fun _ => { object := true }) <|
        followedBy (ofKind .lBrace) (utf8 "\"\x7d\"") (ofKind .rBrace),
      map (fun _ => { array := true }) arraySuffix]

def fieldCapture : Parser FieldCapture :=
  node <| map (fun found => ⟨found.1, found.2.1, found.2.2⟩) <|
  andThen type <| andThen (many suffixCapture) <| optional <| map Prod.snd <|
  followedBy (ofKind .equals) (utf8 "DefaultExpr") defaultCapture

theorem suffixCapture_eq : suffixCapture = map (Prod.map id Suffix.capture) suffix := by
  rw [suffix, ← node_map, ← located_map, ← firstOf_map]
  simp only [List.map_cons, List.map_nil, map_map]
  rfl

theorem defaultCapture_eq : defaultCapture = map (Prod.map id DefaultSyntax.capture) default := by
  rw [default, ← node_map, ← located_map, ← firstOf_map]
  simp only [List.map_cons, List.map_nil, map_map]
  rfl

theorem fieldCapture_eq : fieldCapture = map FieldSyntax.capture field := by
  have assigned : map Prod.snd (followedBy (ofKind .equals) (utf8 "DefaultExpr")
      (map (Prod.map id DefaultSyntax.capture) default)) =
      map (Prod.map id DefaultSyntax.capture)
        (map Prod.snd (followedBy (ofKind .equals) (utf8 "DefaultExpr") default)) := by
    rw [followedBy_map, map_map, map_map]
    rfl
  rw [fieldCapture, suffixCapture_eq, defaultCapture_eq, many_map, assigned, optional_map,
    andThen_map, ← map_id type, andThen_map, map_map, field, ← node_map, map_map]
  rfl

end Grammar

end EntitySchema.Expression
