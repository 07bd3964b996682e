import EntitySchema.Expression.Grammar
import EntitySchema.Proofs.Expression.Reading

/-!
What the grammar reads. Each part of the grammar has the reading that mirrors it, so a list of
lexemes is parsed exactly when it is a reading, in spite of the bounded lookahead: one lexeme
decides which part comes next, but for a default that is a word or a call.
-/

namespace EntitySchema.Expression.Grammar

open EntitySchema.Expression.Reading EntitySchema.Expression.Parser

variable {α : Type}

def kindReading (kind : TokenKind) : Reading Lexeme := one fun candidate => candidate.kind = kind

def nameReading : Reading Lexeme := one Lexeme.isName

def isParameter (candidate : Lexeme) : Bool :=
  candidate.kind = .number || candidate.kind = .ident || candidate.kind = .typeName ||
    candidate.kind = .string

def parameterReading : Reading Parameter :=
  mapped (fun found => ⟨found.1, found.2.text⟩) (placed (one isParameter))

def separatedReading (item : Reading α) : Reading (List α) :=
  mapped (fun found => match found with
    | none => []
    | some (first, others) => first :: others) <|
  maybe <| pair item <| repeated <| mapped Prod.snd <| pair (kindReading .comma) item

def bracketedReading (opening : TokenKind) (item : Reading α) (closing : TokenKind) :
    Reading (List α) :=
  mapped (fun found => found.2.1) <|
  pair (kindReading opening) <| pair (separatedReading item) (kindReading closing)

def argumentsReading (type : Reading TypeSyntax) : Reading Arguments :=
  either (mapped .parameters (bracketedReading .lParen parameterReading .rParen))
    (mapped .types (bracketedReading .lAngle type .rAngle))

def typeReading : (depth : Nat) → Reading TypeSyntax
  | 0 => fun _ _ _ => False
  | depth + 1 =>
    mapped (fun found => assemble found.1 found.2.1.text found.2.2) <| placed <|
    pair nameReading <| maybe <| argumentsReading (typeReading depth)

def arrayReading : Reading Unit :=
  mapped (fun _ => ()) (pair (kindReading .lBracket) (kindReading .rBracket))

def suffixReading : Reading (Nat × Suffix) :=
  placed <| either (mapped (fun _ => .array) arrayReading)
    (mapped (fun found => .modifier found.text) (kindReading .modifier))

inductive DefaultWritten : List Lexeme → DefaultSyntax → Prop
  | call {name opening closing : Lexeme} : name.isName = true → opening.kind = .lParen →
      closing.kind = .rParen → DefaultWritten [name, opening, closing] (.call name.text)
  | word {word : Lexeme} : word.kind = .ident → DefaultWritten [word] (.word word.text)
  | number {number : Lexeme} : number.kind = .number →
      DefaultWritten [number] (.number number.text)
  | string {string : Lexeme} : string.kind = .string →
      DefaultWritten [string] (.string string.text)
  | object {opening closing : Lexeme} : opening.kind = .lBrace → closing.kind = .rBrace →
      DefaultWritten [opening, closing] .object
  | array {opening closing : Lexeme} : opening.kind = .lBracket → closing.kind = .rBracket →
      DefaultWritten [opening, closing] .array

def defaultReading : Reading (Nat × DefaultSyntax) := placed fun _ used value =>
  DefaultWritten used value

def assignedReading : Reading (Nat × DefaultSyntax) :=
  mapped Prod.snd (pair (kindReading .equals) defaultReading)

def fieldReading (depth : Nat) : Reading FieldSyntax :=
  mapped (fun found => ⟨found.1, found.2.1, found.2.2⟩) <|
  pair (typeReading depth) <| pair (repeated suffixReading) (maybe assignedReading)

def inverseReading : Reading Lexeme :=
  mapped Prod.snd (pair (kindReading .dot) nameReading)

def questionReading : Reading Lexeme :=
  one fun candidate => candidate.kind = .modifier && candidate.text = utf8 "?"

def relationReading : Reading RelationSyntax :=
  mapped (fun found =>
    ⟨found.1.text, found.2.1.text, found.2.2.1.map Lexeme.text, found.2.2.2.1.isSome,
      found.2.2.2.2.isSome⟩) <|
  pair (kindReading .relationOp) <| pair nameReading <| pair (maybe inverseReading) <|
  pair (maybe arrayReading) (maybe questionReading)

theorem separated_sound {item : Parser α} {reading : Reading α} (itemName : Text)
    (sound : item.Sound reading) : (separated item itemName).Sound (separatedReading reading) :=
  (sound.andThen (((lexeme_sound _).followedBy itemName sound).map Prod.snd).many).optional.map _

theorem bracketed_sound {item : Parser α} {reading : Reading α} (opening closing : TokenKind)
    (itemName closingName : Text) (sound : item.Sound reading) :
    (bracketed opening item itemName closing closingName).Sound
      (bracketedReading opening reading closing) :=
  ((lexeme_sound _).andThen
    ((separated_sound itemName sound).followedBy closingName (lexeme_sound _))).map _

theorem parameter_sound : parameter.Sound parameterReading :=
  ((lexeme_sound isParameter).located.map _).node

theorem typeUpTo_sound (depth : Nat) : (typeUpTo depth).Sound (typeReading depth) := by
  induction depth with
  | zero =>
      intro cursor value next matched
      simp [typeUpTo] at matched
  | succ depth ih =>
      refine (((lexeme_sound Lexeme.isName).andThen (Sound.optional ?_)).located.map _).node
      apply firstOf_sound
      intro parser member
      simp only [List.mem_cons, List.not_mem_nil, or_false] at member
      rcases member with rfl | rfl
      · exact ((bracketed_sound _ _ _ _ parameter_sound).map _).mono Or.inl
      · exact ((bracketed_sound _ _ _ _ ih).map _).mono Or.inr

theorem arraySuffix_sound : arraySuffix.Sound arrayReading :=
  ((lexeme_sound _).followedBy _ (lexeme_sound _)).map _

theorem suffix_sound : suffix.Sound suffixReading := by
  refine (Sound.located (firstOf_sound ?_)).node
  intro parser member
  simp only [List.mem_cons, List.not_mem_nil, or_false] at member
  rcases member with rfl | rfl
  · exact (arraySuffix_sound.map _).mono Or.inl
  · exact ((lexeme_sound _).map _).mono Or.inr

theorem default_sound : default.Sound defaultReading := by
  refine (Sound.located (firstOf_sound ?_)).node
  intro parser member
  simp only [List.mem_cons, List.not_mem_nil, or_false] at member
  rcases member with rfl | rfl | rfl | rfl | rfl | rfl
  · refine ((((lexeme_sound _).followedBy _ (lexeme_sound _)).followedBy _
      (lexeme_sound _)).map _).mono ?_
    rintro index used value ⟨_, ⟨_, _, rfl, ⟨_, _, rfl, ⟨rfl, isName⟩, rfl, opening⟩, rfl,
      closing⟩, rfl⟩
    exact .call isName (by simpa using opening) (by simpa using closing)
  · refine ((lexeme_sound _).map _).mono ?_
    rintro index used value ⟨_, ⟨rfl, kind⟩, rfl⟩
    exact .word (by simpa using kind)
  · refine ((lexeme_sound _).map _).mono ?_
    rintro index used value ⟨_, ⟨rfl, kind⟩, rfl⟩
    exact .number (by simpa using kind)
  · refine ((lexeme_sound _).map _).mono ?_
    rintro index used value ⟨_, ⟨rfl, kind⟩, rfl⟩
    exact .string (by simpa using kind)
  · refine (((lexeme_sound _).followedBy _ (lexeme_sound _)).map _).mono ?_
    rintro index used value ⟨_, ⟨_, _, rfl, ⟨rfl, opening⟩, rfl, closing⟩, rfl⟩
    exact .object (by simpa using opening) (by simpa using closing)
  · refine (arraySuffix_sound.map _).mono ?_
    rintro index used value ⟨_, ⟨_, ⟨_, _, rfl, ⟨rfl, opening⟩, rfl, closing⟩, _⟩, rfl⟩
    exact .array (by simpa using opening) (by simpa using closing)

theorem relation_sound : relation.Sound relationReading :=
  ((Sound.followedBy _ (lexeme_sound _) <| (lexeme_sound _).andThen <|
    (((lexeme_sound _).followedBy _ (lexeme_sound _)).map Prod.snd).optional.andThen <|
    arraySuffix_sound.optional.andThen (lexeme_sound _).optional).map _).node

theorem ofKind_declines {kind : TokenKind} {cursor : Cursor} (other : Follow [kind] cursor.rest) :
    ofKind kind cursor = .unmatched := by
  apply lexeme_declines
  intro first member
  simpa using other first member

def StartsWith (kind : TokenKind) (lexemes : List Lexeme) : Prop :=
  ∃ first tail, lexemes = first :: tail ∧ first.kind = kind

theorem StartsWith.append {kind : TokenKind} {lexemes : List Lexeme}
    (starts : StartsWith kind lexemes) (rest : List Lexeme) :
    StartsWith kind (lexemes ++ rest) := by
  obtain ⟨first, tail, rfl, same⟩ := starts
  exact ⟨first, tail ++ rest, rfl, same⟩

theorem StartsWith.follow {kind : TokenKind} {kinds : List TokenKind} {rest : List Lexeme}
    (starts : StartsWith kind rest) (other : kind ∉ kinds) : Follow kinds rest := by
  obtain ⟨first, tail, rfl, same⟩ := starts
  simpa [same] using other

theorem kindReading_startsWith {kind : TokenKind} {index : Nat} {used : List Lexeme}
    {value : Lexeme} (read : kindReading kind index used value) : StartsWith kind used := by
  obtain ⟨rfl, same⟩ := read
  exact ⟨value, [], rfl, by simpa using same⟩

theorem pair_startsWith {β : Type} {kind : TokenKind} {reading : Reading β} {index : Nat}
    {used : List Lexeme} {value : Lexeme × β}
    (read : pair (kindReading kind) reading index used value) : StartsWith kind used := by
  obtain ⟨left, right, rfl, first, _⟩ := read
  exact (kindReading_startsWith first).append right

theorem separated_complete {item : Parser α} {reading : Reading α}
    {inner : List Lexeme → Prop} (itemName : Text) {closing : TokenKind}
    (complete : item.Complete reading inner) (notComma : closing ≠ .comma)
    (link : ∀ {rest}, StartsWith .comma rest → inner rest)
    (implied : ∀ {rest}, StartsWith closing rest → inner rest)
    (absent : ∀ {cursor}, StartsWith closing cursor.rest → item cursor = .unmatched) :
    (separated item itemName).Complete (separatedReading reading) (StartsWith closing) := by
  have next : (map Prod.snd (followedBy (ofKind .comma) itemName item)).Complete
      (mapped Prod.snd (pair (kindReading .comma) reading)) inner :=
    ((lexeme_complete _).followedBy itemName complete fun _ _ => trivial).map Prod.snd
  have startsWithComma {index used value}
      (read : mapped Prod.snd (pair (kindReading .comma) reading) index used value) :
      StartsWith .comma used := by
    obtain ⟨_, read, _⟩ := read
    exact pair_startsWith read
  have others : (many (map Prod.snd (followedBy (ofKind .comma) itemName item))).Complete
      (repeated (mapped Prod.snd (pair (kindReading .comma) reading))) (StartsWith closing) := by
    apply next.many
    · intro index used value read
      obtain ⟨first, tail, rfl, _⟩ := startsWithComma read
      simp
    · intro index used value rest read
      exact link ((startsWithComma read).append rest)
    · exact implied
    · intro cursor closed
      apply map_declines
      exact Or.inl (followedBy_declines (ofKind_declines (closed.follow (by simpa using notComma))))
  refine Complete.map _ (Complete.optional (complete.andThen others ?_) id ?_)
  · rintro index used value rest (_ | ⟨read, _⟩) closed
    · exact implied closed
    · rw [List.append_assoc]
      exact link ((startsWithComma read).append _)
  · intro cursor closed
    exact Or.inl (andThen_declines (absent closed))

theorem bracketed_complete {item : Parser α} {reading : Reading α}
    {inner : List Lexeme → Prop} (opening closing : TokenKind) (itemName closingName : Text)
    (complete : item.Complete reading inner) (notComma : closing ≠ .comma)
    (link : ∀ {rest}, StartsWith .comma rest → inner rest)
    (implied : ∀ {rest}, StartsWith closing rest → inner rest)
    (absent : ∀ {cursor}, StartsWith closing cursor.rest → item cursor = .unmatched) :
    (bracketed opening item itemName closing closingName).Complete
      (bracketedReading opening reading closing) fun _ => True := by
  apply Complete.map
  refine (lexeme_complete _).andThen ?_ fun _ _ => trivial
  refine (separated_complete itemName complete notComma link implied absent).followedBy
    closingName (lexeme_complete _) ?_
  exact fun read _ => (kindReading_startsWith read).append _

theorem bracketed_declines {item : Parser α} {opening closing : TokenKind}
    {itemName closingName : Text} {cursor : Cursor} (other : Follow [opening] cursor.rest) :
    bracketed opening item itemName closing closingName cursor = .unmatched := by
  simp [bracketed, Parser.map, andThen_declines (ofKind_declines other)]

theorem parameter_complete : parameter.Complete parameterReading fun _ => True :=
  ((lexeme_complete isParameter).located.map _).node

theorem parameter_declines {cursor : Cursor} (closed : StartsWith .rParen cursor.rest) :
    parameter cursor = .unmatched := by
  obtain ⟨first, tail, shape, kind⟩ := closed
  simp [parameter, Parser.node, Parser.map, located, lexeme, shape, kind]

theorem typeUpTo_declines {depth : Nat} {cursor : Cursor}
    (other : Follow [.ident, .typeName] cursor.rest) : typeUpTo depth cursor = .unmatched := by
  cases depth with
  | zero => rfl
  | succ depth =>
      have noName : name cursor = .unmatched := by
        apply lexeme_declines
        intro first member
        simpa [Lexeme.isName] using other first member
      simp [typeUpTo, Parser.node, Parser.map, located, andThen_declines noName]

theorem arguments_complete {depth : Nat}
    (complete : (typeUpTo depth).Complete (typeReading depth) (Follow [.lParen, .lAngle])) :
    (firstOf
      [map Arguments.parameters <|
          bracketed .lParen parameter (utf8 "ParamArg") .rParen (utf8 "\")\""),
        map Arguments.types <|
          bracketed .lAngle (typeUpTo depth) (utf8 "TypeExpr") .rAngle (utf8 "\">\"")]).Complete
      (argumentsReading (typeReading depth)) fun _ => True := by
  have parens := (bracketed_complete .lParen .rParen (utf8 "ParamArg") (utf8 "\")\"")
    parameter_complete (by decide) (fun _ => trivial) (fun _ => trivial)
    parameter_declines).map Arguments.parameters
  have angles := (bracketed_complete .lAngle .rAngle (utf8 "TypeExpr") (utf8 "\">\"") complete
    (by decide) (fun closed => closed.follow (by decide)) (fun closed => closed.follow (by decide))
    (fun closed => typeUpTo_declines (closed.follow (by decide)))).map Arguments.types
  refine parens.either angles ?_
  intro cursor used rest value shape read
  obtain ⟨_, ⟨_, read, _⟩, _⟩ := read
  have notParen : Follow [.lParen] cursor.rest := by
    rw [shape]
    exact ((pair_startsWith read).append rest).follow (by decide)
  exact map_declines Arguments.parameters (Or.inl (bracketed_declines notParen))

theorem typeUpTo_complete (depth : Nat) :
    (typeUpTo depth).Complete (typeReading depth) (Follow [.lParen, .lAngle]) := by
  induction depth with
  | zero => exact fun _ _ _ _ _ read => read.elim
  | succ depth ih =>
      refine Complete.node (Complete.map _ (Complete.located ?_))
      refine (lexeme_complete _).andThen ?_ fun _ _ => trivial
      refine (arguments_complete ih).optional (fun _ => trivial) ?_
      intro cursor other
      have parens : Follow [.lParen] cursor.rest := other.mono (by simp)
      have angles : Follow [.lAngle] cursor.rest := other.mono (by simp)
      exact Or.inl (by simp [firstOf, firstOfFrom, Parser.map, bracketed_declines parens,
        bracketed_declines angles])

theorem arraySuffix_complete : arraySuffix.Complete arrayReading fun _ => True :=
  ((lexeme_complete _).followedBy _ (lexeme_complete _) fun _ _ => trivial).map _

theorem arrayReading_startsWith {index : Nat} {used : List Lexeme} {value : Unit}
    (read : arrayReading index used value) : StartsWith .lBracket used := by
  obtain ⟨_, read, _⟩ := read
  exact pair_startsWith read

theorem arraySuffix_declines {cursor : Cursor} (other : Follow [.lBracket] cursor.rest) :
    arraySuffix cursor = .unmatched := by
  simp [arraySuffix, Parser.map, followedBy_declines (ofKind_declines other)]

theorem suffix_complete : suffix.Complete suffixReading fun _ => True := by
  apply Complete.node
  apply Complete.located
  refine (arraySuffix_complete.map _).either ((lexeme_complete _).map _) ?_
  intro cursor used rest value shape read
  obtain ⟨_, read, _⟩ := read
  have notBracket : Follow [.lBracket] cursor.rest := by
    rw [shape]
    exact ((kindReading_startsWith read).append rest).follow (by decide)
  exact map_declines _ (Or.inl (arraySuffix_declines notBracket))

theorem suffixReading_startsWith {index : Nat} {used : List Lexeme} {value : Nat × Suffix}
    (read : suffixReading index used value) :
    StartsWith .lBracket used ∨ StartsWith .modifier used := by
  obtain ⟨_, ⟨_, read, _⟩ | ⟨_, read, _⟩⟩ := read
  · exact Or.inl (arrayReading_startsWith read)
  · exact Or.inr (kindReading_startsWith read)

theorem suffix_declines {cursor : Cursor} (other : Follow [.lBracket, .modifier] cursor.rest) :
    suffix.Declines cursor := by
  have brackets : Follow [.lBracket] cursor.rest := other.mono (by simp)
  have modifiers : Follow [.modifier] cursor.rest := other.mono (by simp)
  exact Or.inl (by simp [suffix, Parser.node, located, firstOf, firstOfFrom, Parser.map,
    arraySuffix_declines brackets, ofKind_declines modifiers])

theorem suffixes_complete :
    (many suffix).Complete (repeated suffixReading) (Follow [.lBracket, .modifier]) := by
  refine suffix_complete.many ?_ (fun _ => trivial) (fun _ => trivial) suffix_declines
  intro index used value read
  obtain ⟨first, tail, rfl, _⟩ | ⟨first, tail, rfl, _⟩ := suffixReading_startsWith read <;> simp

theorem default_complete : default.Complete defaultReading fun rest => rest = [] := by
  apply Complete.node
  apply Complete.located
  rintro cursor used rest value shape written rfl
  cases written with
  | call isName opening closing =>
      simp [firstOf, firstOfFrom, Parser.map, followedBy, ofKind, lexeme, shape, isName, opening,
        closing, name]
  | word kind =>
      -- The call is tried first and forgiven behind the name.
      simp [firstOf, firstOfFrom, Parser.map, followedBy, ofKind, lexeme, shape, kind, name,
        Lexeme.isName, Cursor.isCommitted, lookahead]
  | number kind =>
      simp [firstOf, firstOfFrom, Parser.map, followedBy, ofKind, lexeme, shape, kind, name,
        Lexeme.isName]
  | string kind =>
      simp [firstOf, firstOfFrom, Parser.map, followedBy, ofKind, lexeme, shape, kind, name,
        Lexeme.isName]
  | object opening closing =>
      simp [firstOf, firstOfFrom, Parser.map, followedBy, ofKind, lexeme, shape, opening, closing,
        name, Lexeme.isName]
  | array opening closing =>
      simp [firstOf, firstOfFrom, Parser.map, followedBy, ofKind, lexeme, shape, opening, closing,
        name, Lexeme.isName, arraySuffix]

theorem assignedReading_startsWith {index : Nat} {used : List Lexeme}
    {value : Nat × DefaultSyntax} (read : assignedReading index used value) :
    StartsWith .equals used := by
  obtain ⟨_, read, _⟩ := read
  exact pair_startsWith read

theorem fieldTail_follow {index : Nat} {used : List Lexeme}
    {value : List (Nat × Suffix) × Option (Nat × DefaultSyntax)}
    (read : pair (repeated suffixReading) (maybe assignedReading) index used value) :
    Follow [.lParen, .lAngle] used := by
  obtain ⟨left, right, rfl, suffixes, assigned⟩ := read
  obtain ⟨list, default⟩ := value
  dsimp only at suffixes assigned
  cases suffixes with
  | nil =>
      cases default with
      | none =>
          have empty : right = [] := assigned
          simp [empty]
      | some default => exact (assignedReading_startsWith assigned).follow (by decide)
  | cons first others =>
      rw [List.append_assoc]
      obtain starts | starts := suffixReading_startsWith first
      · exact (starts.append _).follow (by decide)
      · exact (starts.append _).follow (by decide)

def fieldUpTo (depth : Nat) : Parser FieldSyntax :=
  node <| map (fun found => ⟨found.1, found.2.1, found.2.2⟩) <|
  andThen (typeUpTo depth) <| andThen (many suffix) <| optional <| map Prod.snd <|
  followedBy (ofKind .equals) (utf8 "DefaultExpr") default

theorem fieldUpTo_sound (depth : Nat) : (fieldUpTo depth).Sound (fieldReading depth) :=
  (((typeUpTo_sound depth).andThen (suffix_sound.many.andThen
    (((lexeme_sound _).followedBy _ default_sound).map Prod.snd).optional)).map _).node

theorem assigned_complete : (map Prod.snd <| followedBy (ofKind .equals) (utf8 "DefaultExpr")
    default).Complete assignedReading fun rest => rest = [] :=
  ((lexeme_complete _).followedBy _ default_complete fun _ _ => trivial).map Prod.snd

theorem fieldUpTo_complete (depth : Nat) :
    (fieldUpTo depth).Complete (fieldReading depth) fun rest => rest = [] := by
  refine Complete.node (Complete.map _ ?_)
  refine (typeUpTo_complete depth).andThen (suffixes_complete.andThen
    (assigned_complete.optional id ?_) ?_) ?_
  · rintro cursor empty
    exact map_declines _ (Or.inl (followedBy_declines (ofKind_declines (by simp [empty]))))
  · rintro index used value rest read rfl
    cases value with
    | none =>
        have empty : used = [] := read
        simp [empty]
    | some value => exact ((assignedReading_startsWith read).append []).follow (by decide)
  · rintro index used value rest read rfl
    simpa using fieldTail_follow read

theorem field_start (lexemes : List Lexeme) :
    field (Cursor.start lexemes) = fieldUpTo (lexemes.length + 1) (Cursor.start lexemes) := by
  simp only [field, fieldUpTo, node, map, andThen, type, Cursor.start]

theorem field_parseAll_iff (lexemes : List Lexeme) (parsed : FieldSyntax) :
    field.parseAll lexemes = .ok parsed ↔ fieldReading (lexemes.length + 1) 0 lexemes parsed := by
  have same : field.parseAll lexemes = (fieldUpTo (lexemes.length + 1)).parseAll lexemes := by
    rw [parseAll, parseAll, field_start]
  rw [same]
  exact parseAll_eq_ok_iff (fieldUpTo_sound _) (fieldUpTo_complete _) lexemes parsed

theorem relation_parseAll_iff (lexemes : List Lexeme) (parsed : RelationSyntax) :
    relation.parseAll lexemes = .ok parsed ↔ relationReading 0 lexemes parsed := by
  have question : (optional questionMark).Complete (maybe questionReading)
      fun rest => rest = [] := by
    refine (lexeme_complete _).optional (fun _ => trivial) ?_
    intro cursor empty
    exact Or.inl (lexeme_declines (by simp [empty]))
  have array : (optional arraySuffix).Complete (maybe arrayReading) (Follow [.lBracket]) :=
    arraySuffix_complete.optional (fun _ => trivial)
      fun other => Or.inl (arraySuffix_declines other)
  have inverse : (optional <| map Prod.snd <| followedBy (ofKind .dot)
      (utf8 "(<ident> | <typename>)") name).Complete (maybe inverseReading) (Follow [.dot]) :=
    (((lexeme_complete _).followedBy _ (lexeme_complete _) fun _ _ => trivial).map _).optional
      (fun _ => trivial)
      fun other => map_declines _ (Or.inl (followedBy_declines (ofKind_declines other)))
  have questionFollow {index used value kinds} (other : TokenKind.modifier ∉ kinds)
      (read : maybe questionReading index used value) : Follow kinds used := by
    cases value with
    | none =>
        have empty : used = [] := read
        simp [empty]
    | some value =>
        obtain ⟨rfl, passed⟩ := read
        have modifier : value.kind = .modifier := by simp at passed; exact passed.1
        simpa [modifier] using other
  have complete : relation.Complete relationReading fun rest => rest = [] := by
    refine Complete.node (Complete.map _ ?_)
    refine (lexeme_complete _).followedBy _ ?_ fun _ _ => trivial
    refine (lexeme_complete _).andThen ?_ fun _ _ => trivial
    refine inverse.andThen (array.andThen question ?_) ?_
    · rintro index used value rest read rfl
      simpa using questionFollow (by decide) read
    · rintro index used value rest ⟨left, right, rfl, read, last⟩ rfl
      obtain ⟨array, question⟩ := value
      cases array with
      | none =>
          have empty : left = [] := read
          simpa [empty] using questionFollow (by decide) last
      | some array =>
          rw [List.append_assoc]
          exact ((arrayReading_startsWith read).append _).follow (by decide)
  exact parseAll_eq_ok_iff relation_sound complete lexemes parsed

end EntitySchema.Expression.Grammar
