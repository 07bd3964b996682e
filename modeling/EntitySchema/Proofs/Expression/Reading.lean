import EntitySchema.Expression.Parser
import Mathlib.Data.List.Basic

/-!
What parsers read. A reading says which lexemes spell which value, the first of them standing at
a given index. A parser has a reading when each of its matches is one, and when it finds each one
that is followed by what may follow it. Every combinator has the reading built from its parts.
-/

namespace EntitySchema.Expression

/-- Which lexemes, from an index on, spell which value. -/
abbrev Reading (α : Type) := Nat → List Lexeme → α → Prop

namespace Reading

variable {α β : Type}

def one (test : Lexeme → Bool) : Reading Lexeme :=
  fun _ used value => used = [value] ∧ test value = true

def mapped (transform : α → β) (reading : Reading α) : Reading β :=
  fun index used value => ∃ source, reading index used source ∧ transform source = value

def pair (first : Reading α) (second : Reading β) : Reading (α × β) :=
  fun index used value => ∃ left right, used = left ++ right ∧ first index left value.1 ∧
    second (index + left.length) right value.2

def either (first second : Reading α) : Reading α :=
  fun index used value => first index used value ∨ second index used value

def maybe (reading : Reading α) : Reading (Option α) :=
  fun index used value => match value with
    | none => used = []
    | some value => reading index used value

inductive repeated (reading : Reading α) : Reading (List α)
  | nil {index} : repeated reading index [] []
  | cons {index left right value values} : reading index left value →
      repeated reading (index + left.length) right values →
      repeated reading index (left ++ right) (value :: values)

def placed (reading : Reading α) : Reading (Nat × α) :=
  fun index used value => value.1 = index ∧ reading index used value.2

end Reading

/-- What follows does not start with a lexeme of the given kinds. -/
def Follow (kinds : List TokenKind) (rest : List Lexeme) : Prop :=
  ∀ lexeme ∈ rest.head?, lexeme.kind ∉ kinds

@[simp]
theorem follow_nil (kinds : List TokenKind) : Follow kinds [] := by
  simp [Follow]

@[simp]
theorem follow_cons (kinds : List TokenKind) (lexeme : Lexeme) (rest : List Lexeme) :
    Follow kinds (lexeme :: rest) ↔ lexeme.kind ∉ kinds := by
  simp [Follow]

theorem Follow.mono {fewer more : List TokenKind} {rest : List Lexeme}
    (subset : fewer ⊆ more) (follow : Follow more rest) : Follow fewer rest :=
  fun lexeme member inside => follow lexeme member (subset inside)

namespace Cursor

@[simp]
theorem accept_rest (cursor branch : Cursor) : (cursor.accept branch).rest = branch.rest := by
  unfold accept
  split <;> rfl

@[simp]
theorem accept_index (cursor branch : Cursor) : (cursor.accept branch).index = branch.index := by
  unfold accept
  split <;> rfl

@[simp]
theorem note_rest (cursor : Cursor) (failure : Failure) :
    (cursor.note failure).rest = cursor.rest := by
  unfold note
  split <;> rfl

@[simp]
theorem note_index (cursor : Cursor) (failure : Failure) :
    (cursor.note failure).index = cursor.index := by
  unfold note
  split <;> rfl

@[simp]
theorem learn_rest (cursor : Cursor) (failure : Failure) (branch : Cursor) :
    (cursor.learn failure branch).rest = cursor.rest := by
  unfold learn
  split
  · rfl
  · split <;> rfl

@[simp]
theorem learn_index (cursor : Cursor) (failure : Failure) (branch : Cursor) :
    (cursor.learn failure branch).index = cursor.index := by
  unfold learn
  split
  · rfl
  · split <;> rfl

def Moves (cursor next : Cursor) (used : List Lexeme) : Prop :=
  cursor.rest = used ++ next.rest ∧ next.index = cursor.index + used.length

theorem Moves.trans {first second third : Cursor} {left right : List Lexeme}
    (before : first.Moves second left) (behind : second.Moves third right) :
    first.Moves third (left ++ right) := by
  obtain ⟨firstRest, secondIndex⟩ := before
  obtain ⟨secondRest, thirdIndex⟩ := behind
  refine ⟨by rw [firstRest, secondRest, List.append_assoc], ?_⟩
  rw [thirdIndex, secondIndex, List.length_append]
  omega

theorem Moves.of_same {cursor next : Cursor} (rest : next.rest = cursor.rest)
    (index : next.index = cursor.index) : cursor.Moves next [] := by
  exact ⟨by simp [rest], by simp [index]⟩

end Cursor

namespace Parser

variable {α β : Type}

def Sound (parser : Parser α) (reading : Reading α) : Prop :=
  ∀ ⦃cursor value next⦄, parser cursor = .matched value next →
    ∃ used, cursor.Moves next used ∧ reading cursor.index used value

def Complete (parser : Parser α) (reading : Reading α) (follow : List Lexeme → Prop) : Prop :=
  ∀ ⦃cursor used rest value⦄, cursor.rest = used ++ rest → reading cursor.index used value →
    follow rest → ∃ next, parser cursor = .matched value next ∧ next.rest = rest ∧
      next.index = cursor.index + used.length

/-- The parser does not match, and gives up early enough for another part to be tried. -/
def Declines (parser : Parser α) (cursor : Cursor) : Prop :=
  parser cursor = .unmatched ∨
    ∃ failure branch, parser cursor = .failed failure branch ∧ cursor.isCommitted branch = false

theorem Sound.mono {parser : Parser α} {reading larger : Reading α}
    (sound : parser.Sound reading)
    (included : ∀ {index used value}, reading index used value → larger index used value) :
    parser.Sound larger := by
  intro cursor value next matched
  obtain ⟨used, moves, read⟩ := sound matched
  exact ⟨used, moves, included read⟩

theorem Complete.mono {parser : Parser α} {reading : Reading α}
    {follow stronger : List Lexeme → Prop} (complete : parser.Complete reading follow)
    (implied : ∀ {rest}, stronger rest → follow rest) : parser.Complete reading stronger :=
  fun _ _ _ _ shape read behind => complete shape read (implied behind)

theorem lexeme_sound (test : Lexeme → Bool) : (lexeme test).Sound (Reading.one test) := by
  intro cursor value next matched
  simp only [lexeme] at matched
  split at matched
  next => simp at matched
  next first rest shape =>
    split at matched
    next passed =>
      cases matched
      exact ⟨[value], ⟨by simp [shape], by simp⟩, rfl, passed⟩
    next => simp at matched

theorem lexeme_complete (test : Lexeme → Bool) :
    (lexeme test).Complete (Reading.one test) fun _ => True := by
  rintro cursor used rest value shape ⟨rfl, passed⟩ _
  simp only [lexeme, shape, List.singleton_append, passed, if_true]
  exact ⟨_, rfl, rfl, rfl⟩

theorem lexeme_declines {test : Lexeme → Bool} {cursor : Cursor}
    (other : ∀ first ∈ cursor.rest.head?, test first = false) :
    lexeme test cursor = .unmatched := by
  simp only [lexeme]
  split
  next => rfl
  next first rest shape =>
    have failed := other first (by simp [shape])
    simp [failed]

theorem Sound.map {parser : Parser α} {reading : Reading α} (transform : α → β)
    (sound : parser.Sound reading) :
    (parser.map transform).Sound (reading.mapped transform) := by
  intro cursor value next matched
  simp only [Parser.map] at matched
  split at matched
  next source found shape =>
    cases matched
    obtain ⟨used, moves, read⟩ := sound shape
    exact ⟨used, moves, source, read, rfl⟩
  next => simp at matched
  next => simp at matched

theorem Complete.map {parser : Parser α} {reading : Reading α} {follow : List Lexeme → Prop}
    (transform : α → β) (complete : parser.Complete reading follow) :
    (parser.map transform).Complete (reading.mapped transform) follow := by
  rintro cursor used rest value shape ⟨source, read, rfl⟩ behind
  obtain ⟨next, matched, nextRest, nextIndex⟩ := complete shape read behind
  exact ⟨next, by simp [Parser.map, matched], nextRest, nextIndex⟩

theorem map_declines {parser : Parser α} {cursor : Cursor} (transform : α → β)
    (declines : parser.Declines cursor) : (parser.map transform).Declines cursor := by
  obtain unmatched | ⟨failure, branch, failed, early⟩ := declines
  · exact Or.inl (by simp [Parser.map, unmatched])
  · exact Or.inr ⟨failure, branch, by simp [Parser.map, failed], early⟩

theorem Sound.followedBy {first : Parser α} {second : Parser β} {left : Reading α}
    {right : Reading β} (expected : Text) (firstSound : first.Sound left)
    (secondSound : second.Sound right) :
    (first.followedBy expected second).Sound (left.pair right) := by
  intro cursor value next matched
  simp only [Parser.followedBy] at matched
  split at matched
  next => simp at matched
  next => simp at matched
  next found middle shape =>
    split at matched
    next other last otherShape =>
      cases matched
      obtain ⟨used, moves, read⟩ := firstSound shape
      obtain ⟨more, moreMoves, moreRead⟩ := secondSound otherShape
      exact ⟨used ++ more, moves.trans moreMoves, used, more, rfl, read, moves.2 ▸ moreRead⟩
    next => simp at matched
    next => simp at matched

theorem Complete.followedBy {first : Parser α} {second : Parser β} {left : Reading α}
    {right : Reading β} {between follow : List Lexeme → Prop} (expected : Text)
    (firstComplete : first.Complete left between) (secondComplete : second.Complete right follow)
    (link : ∀ {index used value rest}, right index used value → follow rest →
      between (used ++ rest)) :
    (first.followedBy expected second).Complete (left.pair right) follow := by
  rintro cursor used rest value shape ⟨before, after, rfl, read, moreRead⟩ behind
  rw [List.append_assoc] at shape
  obtain ⟨middle, matched, middleRest, middleIndex⟩ :=
    firstComplete shape read (link moreRead behind)
  rw [← middleIndex] at moreRead
  obtain ⟨next, moreMatched, nextRest, nextIndex⟩ := secondComplete middleRest moreRead behind
  refine ⟨next, by simp [Parser.followedBy, matched, moreMatched], nextRest, ?_⟩
  rw [nextIndex, middleIndex, List.length_append]
  omega

theorem followedBy_declines {first : Parser α} {second : Parser β} {expected : Text}
    {cursor : Cursor} (unmatched : first cursor = .unmatched) :
    first.followedBy expected second cursor = .unmatched := by
  simp [Parser.followedBy, unmatched]

theorem Sound.andThen {first : Parser α} {second : Parser β} {left : Reading α}
    {right : Reading β} (firstSound : first.Sound left) (secondSound : second.Sound right) :
    (first.andThen second).Sound (left.pair right) := by
  intro cursor value next matched
  simp only [Parser.andThen] at matched
  split at matched
  next => simp at matched
  next => simp at matched
  next found middle shape =>
    obtain ⟨used, moves, read⟩ := firstSound shape
    obtain ⟨more, moreMoves, source, moreRead, rfl⟩ :=
      secondSound.map (fun second => (found, second)) matched
    exact ⟨used ++ more, moves.trans moreMoves, used, more, rfl, read, moves.2 ▸ moreRead⟩

theorem Complete.andThen {first : Parser α} {second : Parser β} {left : Reading α}
    {right : Reading β} {between follow : List Lexeme → Prop}
    (firstComplete : first.Complete left between) (secondComplete : second.Complete right follow)
    (link : ∀ {index used value rest}, right index used value → follow rest →
      between (used ++ rest)) :
    (first.andThen second).Complete (left.pair right) follow := by
  rintro cursor used rest value shape ⟨before, after, rfl, read, moreRead⟩ behind
  rw [List.append_assoc] at shape
  obtain ⟨middle, matched, middleRest, middleIndex⟩ :=
    firstComplete shape read (link moreRead behind)
  rw [← middleIndex] at moreRead
  obtain ⟨next, moreMatched, nextRest, nextIndex⟩ := secondComplete middleRest moreRead behind
  refine ⟨next, by simp [Parser.andThen, Parser.map, matched, moreMatched], nextRest, ?_⟩
  rw [nextIndex, middleIndex, List.length_append]
  omega

theorem andThen_declines {first : Parser α} {second : Parser β} {cursor : Cursor}
    (unmatched : first cursor = .unmatched) : first.andThen second cursor = .unmatched := by
  simp [Parser.andThen, unmatched]

theorem firstOfFrom_sound {reading : Reading α} {parsers : List (Parser α)}
    (sound : ∀ parser ∈ parsers, Sound parser reading) (kept : Option (Nat × Failure)) :
    Sound (firstOfFrom kept parsers) reading := by
  induction parsers generalizing kept with
  | nil =>
      intro cursor value next matched
      simp only [firstOfFrom] at matched
      split at matched <;> simp at matched
  | cons parser parsers ih =>
      have others := fun kept => ih (fun other member => sound other (by simp [member])) kept
      intro cursor value next matched
      simp only [firstOfFrom] at matched
      split at matched
      next found branch shape =>
        cases matched
        obtain ⟨used, moves, read⟩ := sound parser (by simp) shape
        exact ⟨used, by simpa [Cursor.Moves] using moves, read⟩
      next => exact others kept matched
      next failure branch shape =>
        -- A forgiven branch leaves the cursor where it was.
        have stays {kept} (later : firstOfFrom kept parsers (cursor.learn failure branch) =
            .matched value next) :
            ∃ used, cursor.Moves next used ∧ reading cursor.index used value := by
          obtain ⟨used, moves, read⟩ := others kept later
          exact ⟨used, by simpa [Cursor.Moves] using moves, by simpa using read⟩
        split at matched
        next => simp at matched
        next =>
          split at matched
          next => exact stays matched
          next => exact stays matched

theorem firstOf_sound {reading : Reading α} {parsers : List (Parser α)}
    (sound : ∀ parser ∈ parsers, Sound parser reading) : Sound (firstOf parsers) reading :=
  firstOfFrom_sound sound none

theorem firstOfFrom_of_matched {parser : Parser α} {parsers : List (Parser α)}
    {kept : Option (Nat × Failure)} {cursor branch : Cursor} {value : α}
    (matched : parser cursor = .matched value branch) :
    firstOfFrom kept (parser :: parsers) cursor = .matched value (cursor.accept branch) := by
  simp [firstOfFrom, matched]

theorem firstOfFrom_of_declines {parser : Parser α} {cursor : Cursor}
    (declines : parser.Declines cursor) (parsers : List (Parser α))
    (kept : Option (Nat × Failure)) :
    ∃ nextKept next, firstOfFrom kept (parser :: parsers) cursor =
      firstOfFrom nextKept parsers next ∧ next.rest = cursor.rest ∧
        next.index = cursor.index := by
  obtain unmatched | ⟨failure, branch, failed, early⟩ := declines
  · exact ⟨kept, cursor, by simp [firstOfFrom, unmatched], rfl, rfl⟩
  · simp only [firstOfFrom, failed, early, Bool.false_eq_true, if_false]
    split
    · exact ⟨_, _, rfl, by simp, by simp⟩
    · exact ⟨_, _, rfl, by simp, by simp⟩

theorem Complete.either {first second : Parser α} {left right : Reading α}
    {follow : List Lexeme → Prop} (firstComplete : first.Complete left follow)
    (secondComplete : second.Complete right follow)
    (exclusive : ∀ {cursor used rest value}, cursor.rest = used ++ rest →
      right cursor.index used value → first.Declines cursor) :
    (firstOf [first, second]).Complete (left.either right) follow := by
  rintro cursor used rest value shape (read | read) behind
  · obtain ⟨next, matched, nextRest, nextIndex⟩ := firstComplete shape read behind
    rw [firstOf, firstOfFrom_of_matched matched]
    exact ⟨_, rfl, by simpa using nextRest, by simpa using nextIndex⟩
  · obtain ⟨kept, stay, passed, stayRest, stayIndex⟩ :=
      firstOfFrom_of_declines (exclusive shape read) [second] none
    rw [← stayRest] at shape
    rw [← stayIndex] at read
    obtain ⟨next, matched, nextRest, nextIndex⟩ := secondComplete shape read behind
    rw [firstOf, passed, firstOfFrom_of_matched matched]
    exact ⟨_, rfl, by simpa using nextRest, by simp [nextIndex, stayIndex]⟩

theorem Sound.optional {parser : Parser α} {reading : Reading α} (sound : parser.Sound reading) :
    parser.optional.Sound reading.maybe := by
  intro cursor value next matched
  simp only [Parser.optional] at matched
  split at matched
  next found branch shape =>
    cases matched
    obtain ⟨used, moves, read⟩ := sound shape
    exact ⟨used, by simpa [Cursor.Moves] using moves, read⟩
  next =>
    cases matched
    exact ⟨[], Cursor.Moves.of_same rfl rfl, rfl⟩
  next failure branch shape =>
    simp only [forgive] at matched
    split at matched
    next => simp at matched
    next =>
      cases matched
      exact ⟨[], Cursor.Moves.of_same (by simp) (by simp), rfl⟩

theorem Complete.optional {parser : Parser α} {reading : Reading α}
    {inner follow : List Lexeme → Prop} (complete : parser.Complete reading inner)
    (implied : ∀ {rest}, follow rest → inner rest)
    (absent : ∀ {cursor}, follow cursor.rest → parser.Declines cursor) :
    parser.optional.Complete reading.maybe follow := by
  rintro cursor used rest value shape read behind
  cases value with
  | none =>
      have empty : used = [] := read
      subst empty
      rw [List.nil_append] at shape
      obtain unmatched | ⟨failure, branch, failed, early⟩ := absent (shape ▸ behind)
      · exact ⟨cursor, by simp [Parser.optional, unmatched], shape, rfl⟩
      · simp only [Parser.optional, failed, forgive, early]
        exact ⟨_, rfl, by simpa using shape, by simp⟩
  | some value =>
      obtain ⟨next, matched, nextRest, nextIndex⟩ := complete shape read (implied behind)
      simp only [Parser.optional, matched]
      exact ⟨_, rfl, by simpa using nextRest, by simpa using nextIndex⟩

theorem Sound.manyUpTo {parser : Parser α} {reading : Reading α} (sound : parser.Sound reading)
    {limit : Nat} {done values : List α} {cursor next : Cursor}
    (matched : parser.manyUpTo limit done cursor = .matched values next) :
    ∃ used more, cursor.Moves next used ∧ values = done.reverse ++ more ∧
      reading.repeated cursor.index used more := by
  induction limit generalizing done cursor with
  | zero =>
      simp only [Parser.manyUpTo] at matched
      cases matched
      exact ⟨[], [], Cursor.Moves.of_same rfl rfl, by simp, .nil⟩
  | succ limit ih =>
      simp only [Parser.manyUpTo] at matched
      split at matched
      next value branch shape =>
        obtain ⟨used, moves, read⟩ := sound shape
        obtain ⟨others, more, otherMoves, rfl, otherRead⟩ := ih matched
        have step : cursor.Moves (cursor.accept branch) used := by
          simpa [Cursor.Moves] using moves
        refine ⟨used ++ others, value :: more, step.trans otherMoves, by simp, ?_⟩
        rw [step.2] at otherRead
        exact .cons read otherRead
      next =>
        cases matched
        exact ⟨[], [], Cursor.Moves.of_same rfl rfl, by simp, .nil⟩
      next failure branch shape =>
        simp only [forgive] at matched
        split at matched
        next => simp at matched
        next =>
          cases matched
          exact ⟨[], [], Cursor.Moves.of_same (by simp) (by simp), by simp, .nil⟩

theorem Sound.many {parser : Parser α} {reading : Reading α} (sound : parser.Sound reading) :
    parser.many.Sound reading.repeated := by
  intro cursor values next matched
  obtain ⟨used, more, moves, rfl, read⟩ := sound.manyUpTo matched
  exact ⟨used, moves, read⟩

theorem Complete.manyUpTo {parser : Parser α} {reading : Reading α}
    {inner follow : List Lexeme → Prop} (complete : parser.Complete reading inner)
    (progress : ∀ {index used value}, reading index used value → used ≠ [])
    (link : ∀ {index used value rest}, reading index used value → inner (used ++ rest))
    (implied : ∀ {rest}, follow rest → inner rest)
    (absent : ∀ {cursor}, follow cursor.rest → parser.Declines cursor)
    {limit : Nat} {done values : List α} {cursor : Cursor} {used rest : List Lexeme}
    (shape : cursor.rest = used ++ rest) (read : reading.repeated cursor.index used values)
    (behind : follow rest) (enough : used.length ≤ limit) :
    ∃ next, parser.manyUpTo limit done cursor = .matched (done.reverse ++ values) next ∧
      next.rest = rest ∧ next.index = cursor.index + used.length := by
  induction limit generalizing done values cursor used with
  | zero =>
      cases read with
      | nil => exact ⟨cursor, by simp [Parser.manyUpTo], shape, rfl⟩
      | cons first others =>
          have nonempty := progress first
          simp only [List.length_append, Nat.le_zero, Nat.add_eq_zero_iff,
            List.length_eq_zero_iff] at enough
          exact absurd enough.1 nonempty
  | succ limit ih =>
      cases read with
      | nil =>
          rw [List.nil_append] at shape
          obtain unmatched | ⟨failure, branch, failed, early⟩ := absent (shape ▸ behind)
          · exact ⟨cursor, by simp [Parser.manyUpTo, unmatched], shape, rfl⟩
          · simp only [Parser.manyUpTo, failed, forgive, early, List.append_nil]
            exact ⟨_, rfl, by simpa using shape, by simp⟩
      | @cons _ left right value values first others =>
          rw [List.append_assoc] at shape
          -- What follows this part is another part, or what follows the whole list.
          have between : inner (right ++ rest) := by
            cases others with
            | nil => simpa using implied behind
            | cons second _ =>
                rw [List.append_assoc]
                exact link second
          obtain ⟨branch, matched, branchRest, branchIndex⟩ := complete shape first between
          have shorter : right.length ≤ limit := by
            have nonempty := List.length_pos_iff.mpr (progress first)
            rw [List.length_append] at enough
            omega
          rw [← branchIndex, ← Cursor.accept_index cursor] at others
          obtain ⟨next, moreMatched, nextRest, nextIndex⟩ :=
            ih (by simpa using branchRest) others shorter
          simp only [Parser.manyUpTo, matched]
          refine ⟨next, by rw [moreMatched]; simp, nextRest, ?_⟩
          rw [nextIndex, Cursor.accept_index, branchIndex, List.length_append]
          omega

theorem Complete.many {parser : Parser α} {reading : Reading α}
    {inner follow : List Lexeme → Prop} (complete : parser.Complete reading inner)
    (progress : ∀ {index used value}, reading index used value → used ≠ [])
    (link : ∀ {index used value rest}, reading index used value → inner (used ++ rest))
    (implied : ∀ {rest}, follow rest → inner rest)
    (absent : ∀ {cursor}, follow cursor.rest → parser.Declines cursor) :
    parser.many.Complete reading.repeated follow := by
  intro cursor used rest values shape read behind
  have enough : used.length ≤ cursor.rest.length := by simp [shape]
  exact complete.manyUpTo progress link implied absent shape read behind enough

theorem Sound.node {parser : Parser α} {reading : Reading α} (sound : parser.Sound reading) :
    parser.node.Sound reading := by
  intro cursor value next matched
  simp only [Parser.node] at matched
  split at matched
  next => simp at matched
  next => exact sound matched

theorem Complete.node {parser : Parser α} {reading : Reading α} {follow : List Lexeme → Prop}
    (complete : parser.Complete reading follow) : parser.node.Complete reading follow := by
  intro cursor used rest value shape read behind
  obtain ⟨next, matched, nextRest, nextIndex⟩ := complete shape read behind
  exact ⟨next, by simp [Parser.node, matched], nextRest, nextIndex⟩

theorem Sound.located {parser : Parser α} {reading : Reading α} (sound : parser.Sound reading) :
    parser.located.Sound reading.placed := by
  intro cursor value next matched
  obtain ⟨used, moves, source, read, rfl⟩ := sound.map (fun value => (cursor.index, value)) matched
  exact ⟨used, moves, rfl, read⟩

theorem Complete.located {parser : Parser α} {reading : Reading α} {follow : List Lexeme → Prop}
    (complete : parser.Complete reading follow) :
    parser.located.Complete reading.placed follow := by
  rintro cursor used rest ⟨index, value⟩ shape ⟨same, read⟩ behind
  dsimp only at same read
  subst same
  exact complete.map (fun value => (cursor.index, value)) shape ⟨value, read, rfl⟩ behind

theorem parseAll_eq_ok_iff {parser : Parser α} {reading : Reading α} (sound : parser.Sound reading)
    (complete : parser.Complete reading fun rest => rest = []) (lexemes : List Lexeme)
    (value : α) : parser.parseAll lexemes = .ok value ↔ reading 0 lexemes value := by
  constructor
  · intro parsed
    simp only [parseAll] at parsed
    split at parsed
    next => simp at parsed
    next => simp at parsed
    next found next shape =>
      split at parsed
      next empty =>
        cases parsed
        obtain ⟨used, moves, read⟩ := sound shape
        have whole := moves.1
        rw [List.isEmpty_iff.mp empty, List.append_nil] at whole
        rw [show lexemes = used from whole]
        exact read
      next => split at parsed <;> simp at parsed
  · intro read
    have shape : (Cursor.start lexemes).rest = lexemes ++ [] := by simp [Cursor.start]
    obtain ⟨next, matched, nextRest, _⟩ := complete shape read rfl
    simp [parseAll, matched, nextRest]

end Parser

end EntitySchema.Expression
