import EntitySchema.Proofs.Checked.Field
import EntitySchema.Proofs.Token.Segmentation

/-!
Expressions read from their tokens. The first two tokens are looked at before the parser runs, the
parser takes all of them from a stream, and what it reports is a failure of its own.
-/

namespace EntitySchema.Checked

open Expression

variable {ε α : Type}

/-- The token at a number, or an error; behind the last token that one comes again. -/
def nextToken (tokens : List Token) (next : Nat) : Checked ε (Except Text Token × Nat) := do
  let last ← item tokens (tokens.length - 1)
  if next < tokens.length then
    let token ← item tokens next
    .ok (.ok token, next + 1)
  else .ok (.ok last, next)

def readTokens (tokens : List Token) : (rounds next : Nat) → Checked ε (Except Text (List Token))
  | 0, _ => .error .unreachable
  | rounds + 1, next => do
    match ← nextToken tokens next with
    | (.error message, _) => .ok (.error message)
    | (.ok token, next) =>
      if token.kind = .eof then .ok (.ok [])
      else
        let rest ← readTokens tokens rounds next
        .ok (rest.map (token :: ·))

inductive ParserError where
  | blamed (failure : Failure)
  | other (message : Text)

def parseString (parser : Parser α) (text : Text) : Checked ε (Except ParserError α) := do
  let tokens := tokenize text
  match ← readTokens tokens tokens.length 0 with
  | .error message => .ok (.error (.other message))
  | .ok taken => .ok ((parser.parseAll (taken.map Token.toLexeme)).mapError .blamed)

def failureOf : ParserError → Checked ε Failure
  | .blamed failure => .ok failure
  | .other _ => .error .unreachable

def locateIn (tokens : List Token) (outcome : Checked Fault α) : Checked ParseError α :=
  mapError (fun fault => fault.locate tokens) outcome

def parseRelation (text : Text) : Checked ParseError Relation :=
  if text.isBlank then refuse { cause := .emptyRelation }
  else if maxExpressionLength < text.length then refuse { cause := .tooLong }
  else do
    let tokens := tokenize text
    let first ← item tokens 0
    if first.kind ≠ .relationOp then
      refuse { cause := .missingOperator first.text, position := first.position }
    else
      let target ← item tokens 1
      if target.isName then
        match ← parseString Grammar.relation text with
        | .ok parsed => .ok (Relation.ofSyntax parsed)
        | .error error =>
          let failure ← failureOf error
          refuse ((failure.fault (lexemesOf tokens)).locate tokens)
      else if target.kind = .eof then
        refuse { cause := .missingTarget none, position := target.position }
      else refuse { cause := .missingTarget (some target.text), position := target.position }

def parseField (text : Text) : Checked ParseError Field :=
  if text.isBlank then refuse { cause := .emptyField }
  else if maxExpressionLength < text.length then refuse { cause := .tooLong }
  else do
    let tokens := tokenize text
    let first ← item tokens 0
    if first.kind = .modifier then
      refuse { cause := .modifierFirst first.text, position := first.position }
    else if first.kind = .relationOp then
      let relation ← parseRelation text
      .ok (Field.ofRelation relation)
    else if !first.isName then
      refuse { cause := .typeNameExpected first.text, position := first.position }
    else if (TypeName.canonical? first.text).isNone then
      refuse { cause := .unknownType first.text, position := first.position }
    else
      match ← parseString Grammar.fieldCapture text with
      | .ok parsed => locateIn tokens (readField parsed)
      | .error error =>
        let failure ← failureOf error
        refuse ((Field.faultOf failure (lexemesOf tokens)).locate tokens)

theorem nextToken_of_lt {tokens : List Token} {next : Nat} (bound : next < tokens.length) :
    (nextToken tokens next : Checked ε _) = .ok (.ok tokens[next], next + 1) := by
  rw [nextToken, item_of_lt (by omega), ok_bind, if_pos bound, item_of_lt bound, ok_bind]

theorem readTokens_eq {front inner : List Token} {last : Token} {rounds : Nat}
    (more : ∀ token ∈ inner, token.kind ≠ .eof) (ends : last.kind = .eof)
    (enough : inner.length < rounds) :
    (readTokens (front ++ inner ++ [last]) rounds front.length : Checked ε _) =
      .ok (.ok inner) := by
  induction inner generalizing front rounds with
  | nil =>
      obtain ⟨rounds, rfl⟩ : ∃ smaller, rounds = smaller + 1 := ⟨rounds - 1, by omega⟩
      have bound : front.length < (front ++ [] ++ [last]).length := by simp
      rw [readTokens, nextToken_of_lt bound, ok_bind]
      simp [ends]
  | cons token inner ih =>
      obtain ⟨rounds, rfl⟩ : ∃ smaller, rounds = smaller + 1 := ⟨rounds - 1, by omega⟩
      rw [List.forall_mem_cons] at more
      have bound : front.length < (front ++ token :: inner ++ [last]).length := by simp
      have shape : front ++ token :: inner ++ [last] = front ++ [token] ++ inner ++ [last] := by
        simp
      have later := @ih (front ++ [token]) rounds more.2 (by simpa using enough)
      rw [List.length_append, List.length_singleton, ← shape] at later
      have found : (front ++ token :: inner ++ [last])[front.length] = token := by simp
      rw [readTokens, nextToken_of_lt bound, ok_bind, found]
      dsimp only
      rw [if_neg more.1, later]
      rfl

theorem parseString_eq (parser : Parser α) (text : Text) :
    (parseString parser text : Checked ε _) =
      .ok ((parser.parseAll (lexemesOf (tokenize text))).mapError .blamed) := by
  obtain ⟨inner, last, whole, ends, _, _, more⟩ := (tokenize_isSegmentation text).ends
  have taken := @readTokens_eq ε [] inner last (inner ++ [last]).length more ends (by simp)
  rw [List.nil_append, List.length_nil] at taken
  simp only [parseString, whole, taken, ok_bind, lexemesOf, List.dropLast_concat]

theorem locate_of_getElem? {tokens : List Token} {index : Nat} {token : Token}
    (found : tokens[index]? = some token) (cause : Cause) :
    (⟨index, cause⟩ : Fault).locate tokens = { cause := cause, position := token.position } := by
  simp [Fault.locate, found]

theorem read_of_fits {blank : Cause} {readLexemes : List Lexeme → Except Fault α} {text : Text}
    (visible : text.isBlank = false) (fits : text.length ≤ maxExpressionLength) :
    ofExcept (Expression.read blank readLexemes text) =
      locateIn (tokenize text) (ofExcept (readLexemes (lexemesOf (tokenize text)))) := by
  rw [Expression.read, if_neg (by simp [visible]), if_neg (Nat.not_lt.mpr fits)]
  dsimp only
  cases readLexemes (lexemesOf (tokenize text)) <;> rfl

theorem read_eq {blank : Cause} {readLexemes : List Lexeme → Except Fault α} {text : Text}
    {run : Checked ParseError α}
    (same : text.isBlank = false → text.length ≤ maxExpressionLength →
      run = locateIn (tokenize text) (ofExcept (readLexemes (lexemesOf (tokenize text))))) :
    (if text.isBlank then refuse { cause := blank }
      else if maxExpressionLength < text.length then refuse { cause := .tooLong }
      else run) = ofExcept (Expression.read blank readLexemes text) := by
  by_cases white : text.isBlank = true
  · rw [if_pos white, Expression.read, if_pos white, ofExcept_error]
  · by_cases long : maxExpressionLength < text.length
    · rw [if_neg white, if_pos long, Expression.read, if_neg white, if_pos long, ofExcept_error]
    · have visible := Bool.not_eq_true _ ▸ white
      have fits := Nat.not_lt.mp long
      rw [if_neg white, if_neg long, read_of_fits visible fits, same visible fits]

theorem locateIn_error {tokens : List Token} {index : Nat} {token : Token}
    (found : tokens[index]? = some token) (cause : Cause) :
    locateIn tokens (ofExcept (.error ⟨index, cause⟩ : Except Fault α)) =
      refuse { cause := cause, position := token.position } := by
  rw [← locate_of_getElem? found cause]
  rfl

theorem parseRelation_eq (text : Text) :
    parseRelation text = ofExcept (Relation.parse text) := by
  refine read_eq fun _ _ => ?_
  obtain ⟨inner, last, whole, ends, empty, _, more⟩ := (tokenize_isSegmentation text).ends
  have lexemes : lexemesOf (tokenize text) = inner.map Token.toLexeme := by
    rw [lexemesOf, whole, List.dropLast_concat]
  dsimp only
  cases inner with
  | nil =>
      have lastAt : (tokenize text)[0]? = some last := by
        rw [whole]
        rfl
      have other : last.kind ≠ .relationOp := by simp [ends]
      rw [item_of_getElem? lastAt, ok_bind, if_pos other, lexemes, List.map_nil,
        Relation.ofLexemes, locateIn_error lastAt, empty]
  | cons first rest =>
      have firstAt : (tokenize text)[0]? = some first := by
        rw [whole]
        rfl
      rw [item_of_getElem? firstAt, ok_bind, lexemes, List.map_cons]
      unfold Relation.ofLexemes
      dsimp only
      by_cases arrow : first.kind = .relationOp
      · rw [if_neg (not_not_intro arrow), if_neg (not_not_intro arrow)]
        cases rest with
        | nil =>
            have lastAt : (tokenize text)[1]? = some last := by
              rw [whole]
              rfl
            have notName : ¬last.isName = true := by simp [Lexeme.isName, ends]
            rw [item_of_getElem? lastAt, ok_bind, if_neg notName, if_pos ends, List.map_nil]
            dsimp only
            rw [locateIn_error lastAt]
        | cons target others =>
            have targetAt : (tokenize text)[1]? = some target := by
              rw [whole]
              rfl
            rw [item_of_getElem? targetAt, ok_bind, List.map_cons]
            dsimp only
            by_cases named : target.isName = true
            · rw [if_pos named, if_pos named, parseString_eq, ok_bind, lexemes, List.map_cons,
                List.map_cons]
              cases Grammar.relation.parseAll
                (first.toLexeme :: target.toLexeme :: others.map Token.toLexeme) <;> rfl
            · have notEnd : ¬target.kind = .eof := more target (by simp)
              rw [if_neg named, if_neg named, if_neg notEnd, locateIn_error targetAt]
      · rw [if_pos arrow, if_pos arrow, locateIn_error firstAt]

theorem parseField_eq (text : Text) : parseField text = ofExcept (Field.parse text) := by
  refine read_eq fun visible fits => ?_
  obtain ⟨inner, last, whole, ends, empty, _, _⟩ := (tokenize_isSegmentation text).ends
  have lexemes : lexemesOf (tokenize text) = inner.map Token.toLexeme := by
    rw [lexemesOf, whole, List.dropLast_concat]
  have related : parseRelation text =
      locateIn (tokenize text) (ofExcept (Relation.ofLexemes (lexemesOf (tokenize text)))) := by
    rw [parseRelation_eq, Relation.parse, read_of_fits visible fits]
  dsimp only
  cases inner with
  | nil =>
      have lastAt : (tokenize text)[0]? = some last := by
        rw [whole]
        rfl
      have kinds : last.kind ≠ .modifier ∧ last.kind ≠ .relationOp ∧ (!last.isName) = true := by
        simp [Lexeme.isName, ends]
      rw [item_of_getElem? lastAt, ok_bind, if_neg kinds.1, if_neg kinds.2.1, if_pos kinds.2.2,
        lexemes, List.map_nil, Field.ofLexemes, locateIn_error lastAt, empty]
  | cons first rest =>
      have firstAt : (tokenize text)[0]? = some first := by
        rw [whole]
        rfl
      rw [item_of_getElem? firstAt, ok_bind, parseString_eq, related, lexemes, List.map_cons]
      unfold Field.ofLexemes
      dsimp only
      split_ifs with modifier arrow noName unknown
      · rw [locateIn_error firstAt]
      · cases Relation.ofLexemes (first.toLexeme :: rest.map Token.toLexeme) <;> rfl
      · rw [locateIn_error firstAt]
      · rw [locateIn_error firstAt]
      · rw [ok_bind, Grammar.fieldCapture_eq, Parser.parseAll_map]
        cases Grammar.field.parseAll (first.toLexeme :: rest.map Token.toLexeme) with
        | ok parsed =>
            simp only [Except.map, Except.mapError]
            rw [readField_eq]
        | error failure => rfl

end EntitySchema.Checked
