import EntitySchema.Proofs.Expression.Fault
import EntitySchema.Proofs.Expression.Layout
import EntitySchema.Proofs.Token.Prefix

/-!
When a refused field is blamed on its default. What stands in front of the first equals sign is a
type with suffixes exactly if the fault lies behind the sign; a fault at the sign itself belongs to
an unfinished type, and is blamed on the default all the same.
-/

namespace EntitySchema

open Expression

namespace Expression

namespace Reading

variable {α : Type}

theorem repeated_imp {reading other : Reading α} {bound : Nat}
    (each : ∀ {index used value}, reading index used value → used.length ≤ bound →
      other index used value) {index : Nat} {used : List Lexeme} {values : List α}
    (read : reading.repeated index used values) (fits : used.length ≤ bound) :
    other.repeated index used values := by
  induction read with
  | nil => exact .nil
  | cons first others ih =>
      rw [List.length_append] at fits
      exact .cons (each first (by omega)) (ih (by omega))

end Reading

namespace Grammar

open EntitySchema.Expression.Reading EntitySchema.Expression.Parser

variable {α : Type} {depth index : Nat} {used : List Lexeme}

theorem bracketedReading_imp {opening closing : TokenKind} {item other : Reading α} {bound : Nat}
    (each : ∀ {index used value}, item index used value → used.length ≤ bound →
      other index used value) {values : List α}
    (read : bracketedReading opening item closing index used values) (fits : used.length ≤ bound) :
    bracketedReading opening other closing index used values := by
  obtain ⟨found, ⟨before, behind, rfl, open_, inner, last, rfl, ⟨list, read, shape⟩, close⟩,
    same⟩ := read
  simp only [List.length_append] at fits
  refine ⟨found, ⟨before, inner ++ last, rfl, open_, inner, last, rfl, ⟨list, ?_, shape⟩, close⟩,
    same⟩
  obtain _ | ⟨first, others⟩ := list
  · exact read
  · obtain ⟨left, right, rfl, firstRead, othersRead⟩ := read
    rw [List.length_append] at fits
    refine ⟨left, right, rfl, each firstRead (by omega), repeated_imp ?_ othersRead
      (Nat.le_refl _)⟩
    rintro index used _ ⟨pair, ⟨comma, written, rfl, sign, writtenRead⟩, rfl⟩ shorter
    rw [List.length_append] at shorter
    exact ⟨pair, ⟨comma, written, rfl, sign, each writtenRead (by omega)⟩, rfl⟩

theorem typeReading_of_length {parsed : TypeSyntax} {other : Nat}
    (read : typeReading depth index used parsed) (enough : used.length ≤ other) :
    typeReading other index used parsed := by
  induction depth generalizing index used parsed other with
  | zero => exact read.elim
  | succ depth ih =>
      obtain ⟨⟨_, name, arguments⟩, ⟨rfl, left, right, rfl, nameRead, argumentsRead⟩, rfl⟩ := read
      have single : left.length = 1 := by rw [nameRead.1]; rfl
      rw [List.length_append] at enough
      obtain ⟨other, rfl⟩ : ∃ smaller, other = smaller + 1 := ⟨other - 1, by omega⟩
      refine ⟨⟨_, name, arguments⟩, ⟨rfl, left, right, rfl, nameRead, ?_⟩, rfl⟩
      obtain _ | arguments := arguments
      · exact argumentsRead
      · obtain parameters | ⟨list, bracketed, same⟩ := argumentsRead
        · exact Or.inl parameters
        · exact Or.inr ⟨list, bracketedReading_imp ih bracketed (by omega), same⟩

def headUpTo (depth : Nat) : Parser (TypeSyntax × List (Nat × Suffix)) :=
  andThen (typeUpTo depth) (many suffix)

def headReading (depth : Nat) : Reading (TypeSyntax × List (Nat × Suffix)) :=
  pair (typeReading depth) (repeated suffixReading)

def assigned : Parser (Nat × DefaultSyntax) :=
  map Prod.snd <| followedBy (ofKind .equals) (utf8 "DefaultExpr") default

theorem fieldUpTo_eq (depth : Nat) : fieldUpTo depth =
    node (map (fun found => ⟨found.1.1, found.1.2, found.2⟩)
      (andThen (headUpTo depth) (optional assigned))) := by
  funext cursor
  simp only [fieldUpTo, headUpTo, assigned, node, andThen, map]
  cases typeUpTo depth cursor with
  | unmatched => rfl
  | failed => rfl
  | matched value next =>
      dsimp only
      cases many suffix next with
      | unmatched => rfl
      | failed => rfl
      | matched suffixes last =>
          dsimp only
          cases optional (map Prod.snd (followedBy (ofKind .equals) (utf8 "DefaultExpr") default))
            last <;> rfl

section Head

variable {depth : Nat} {cursor : Cursor}

theorem fieldUpTo_of_unmatched (read : headUpTo depth cursor = .unmatched) :
    fieldUpTo depth cursor = .unmatched := by
  rw [fieldUpTo_eq]
  simp [node, map, andThen, read]

theorem fieldUpTo_of_failed {failure : Failure} {branch : Cursor}
    (read : headUpTo depth cursor = .failed failure branch) :
    ∃ final, fieldUpTo depth cursor = .failed failure final := by
  rw [fieldUpTo_eq]
  simp [node, map, andThen, read]

theorem fieldUpTo_of_matched {value : TypeSyntax × List (Nat × Suffix)} {next : Cursor}
    (read : headUpTo depth cursor = .matched value next) :
    fieldUpTo depth cursor =
      node (map (fun default => ⟨value.1, value.2, default⟩) (optional assigned)) next := by
  rw [fieldUpTo_eq]
  simp only [node, map, andThen, read]
  cases optional assigned next <;> rfl

end Head

theorem headUpTo_sound (depth : Nat) : (headUpTo depth).Sound (headReading depth) :=
  (typeUpTo_sound depth).andThen suffix_sound.many

theorem headUpTo_complete (depth : Nat) : (headUpTo depth).Complete (headReading depth)
    (Follow [.lParen, .lAngle, .lBracket, .modifier]) := by
  have suffixes := suffixes_complete.mono fun {rest}
    (other : Follow [.lParen, .lAngle, .lBracket, .modifier] rest) => other.mono (by simp)
  refine (typeUpTo_complete depth).andThen suffixes ?_
  intro index used values rest read other
  cases read with
  | nil => exact other.mono (by simp)
  | cons first others =>
      rw [List.append_assoc]
      obtain starts | starts := suffixReading_startsWith first
      · exact (starts.append _).follow (by decide)
      · exact (starts.append _).follow (by decide)

def isEquals (lexeme : Lexeme) : Bool := lexeme.kind = .equals

theorem spared_isEquals : Spared isEquals := by
  intro lexeme other
  simpa [isEquals] using other

theorem headUpTo_keeps {stop : Lexeme → Bool} (spared : Spared stop) (depth : Nat) :
    (headUpTo depth).Keeps stop :=
  (typeUpTo_keeps spared depth).andThen (suffix_keeps spared).many

theorem assigned_within {cursor : Cursor} {sign : Lexeme} {behind : List Lexeme} {bound : Nat}
    (shape : cursor.rest = sign :: behind) (equals : isEquals sign = true)
    (sane : cursor.Sane (fun _ => false) bound) :
    assigned cursor ≠ .unmatched ∧
      (assigned cursor).Within (fun _ => false) bound (cursor.index + 1) := by
  have signKeeps : (ofKind .equals).Keeps fun _ => false := lexeme_keeps fun _ _ => rfl
  have read : ofKind .equals cursor =
      .matched sign { cursor with index := cursor.index + 1, rest := behind } := by
    simp only [ofKind, lexeme, shape]
    rw [if_pos (by simpa [isEquals] using equals)]
  have next := signKeeps sane
  rw [read] at next
  have within := default_keeps (fun _ _ => rfl) next.1
  simp only [assigned, map, followedBy, read]
  cases found : default { cursor with index := cursor.index + 1, rest := behind } with
  | matched value last =>
      rw [found] at within
      exact ⟨by simp, within⟩
  | unmatched => exact ⟨by simp, next.1, Nat.le_refl _, Nat.le_refl _, next.1.index_le⟩
  | failed failure last =>
      rw [found] at within
      exact ⟨by simp, within⟩

theorem lt_deepestAt_learn {cursor branch : Cursor} (moved : cursor.index < branch.index)
    (failure : Failure) :
    cursor.index < ((cursor.note failure).learn failure branch).deepestAt := by
  have noted : cursor.index ≤ (cursor.note failure).deepestAt := by
    unfold Cursor.note
    split
    · exact Nat.le_refl _
    · omega
  unfold Cursor.learn
  split
  · dsimp only
    omega
  · split
    · exact Nat.lt_of_lt_of_le moved (Nat.le_max_left _ _)
    · omega

theorem lt_of_head_matched {lexemes behind : List Lexeme} {sign : Lexeme} {depth : Nat}
    {value : TypeSyntax × List (Nat × Suffix)} {next : Cursor} {failure : Failure}
    (matched : headUpTo depth (Cursor.start lexemes) = .matched value next)
    (shape : next.rest = sign :: behind) (equals : isEquals sign = true)
    (failed : (fieldUpTo depth).parseAll lexemes = .error failure) :
    next.index < failure.index := by
  have spared : Spared fun _ => false := fun _ _ => rfl
  have sane := headUpTo_keeps spared depth (Cursor.sane_start _ lexemes)
  rw [matched] at sane
  obtain ⟨assignedOne, within⟩ := assigned_within shape equals sane.1
  have outcome := fieldUpTo_of_matched matched
  cases found : assigned next with
  | unmatched => exact absurd found assignedOne
  | matched default last =>
      rw [found] at within
      have read : fieldUpTo depth (Cursor.start lexemes) =
          .matched ⟨value.1, value.2, some default⟩ (next.accept last) := by
        rw [outcome]
        simp [node, map, Parser.optional, found]
      have blamed := parseAll_error_of_matched read (sane.1.accept within.1) failed
      have behindSign := within.2
      rw [Cursor.accept_index] at blamed
      omega
  | failed deeper branch =>
      rw [found] at within
      obtain ⟨branchSane, moved, ahead, inside⟩ := within
      have learnt := (sane.1.note (by omega) inside).learn branchSane ahead inside
      by_cases committed : next.isCommitted branch = true
      · have read : ∃ final, fieldUpTo depth (Cursor.start lexemes) = .failed deeper final := by
          rw [outcome]
          simp [node, map, Parser.optional, forgive, found, committed]
        obtain ⟨final, read⟩ := read
        rw [parseAll, read] at failed
        cases failed
        omega
      · have read : fieldUpTo depth (Cursor.start lexemes) =
            .matched ⟨value.1, value.2, none⟩ ((next.note deeper).learn deeper branch) := by
          rw [outcome]
          simp [node, map, Parser.optional, forgive, found, committed]
        have blamed := parseAll_error_of_matched read learnt failed
        have further : next.index < branch.index := by omega
        have deep := lt_deepestAt_learn further deeper
        omega

theorem heldFor_append {before : List Lexeme} {sign : Lexeme} (behind : List Lexeme)
    (plain : ∀ lexeme ∈ before, isEquals lexeme = false) (equals : isEquals sign = true) :
    heldFor isEquals (before ++ sign :: behind) = before.length := by
  have all : ∀ lexeme ∈ before, (!isEquals lexeme) = true := by
    intro lexeme member
    rw [plain lexeme member]
    rfl
  rw [heldFor, List.takeWhile_append_of_pos all, List.takeWhile_cons_of_neg (by simp [equals]),
    List.append_nil]

theorem le_of_head_stopped {lexemes tail : List Lexeme} {first : Lexeme} {depth bound : Nat}
    {value : TypeSyntax × List (Nat × Suffix)} {next : Cursor} {failure : Failure}
    (matched : headUpTo depth (Cursor.start lexemes) = .matched value next)
    (shape : next.rest = first :: tail) (other : isEquals first = false)
    (sane : next.Sane isEquals bound)
    (failed : (fieldUpTo depth).parseAll lexemes = .error failure) : failure.index ≤ bound := by
  have unassigned : assigned next = .unmatched := by
    simp only [isEquals] at other
    simp [assigned, map, followedBy, ofKind, lexeme, shape, other]
  have read : fieldUpTo depth (Cursor.start lexemes) = .matched ⟨value.1, value.2, none⟩ next := by
    rw [fieldUpTo_of_matched matched]
    simp [node, map, Parser.optional, unassigned]
  exact (parseAll_error_of_matched read sane failed).2.2.2

theorem exists_mem_left {before behind used left : List Lexeme}
    (whole : before ++ behind = used ++ left) (shorter : used.length < before.length) :
    ∃ first tail, left = first :: tail ∧ first ∈ before := by
  obtain ⟨more, rfl, _⟩ | ⟨more, rfl, rest⟩ := List.append_eq_append_iff.mp whole
  · rw [List.length_append] at shorter
    omega
  · cases more with
    | nil => simp at shorter
    | cons first tail => exact ⟨first, tail ++ behind, rest, by simp⟩

theorem exists_head_iff {before behind : List Lexeme} {sign : Lexeme} {depth : Nat}
    {failure : Failure} (plain : ∀ lexeme ∈ before, isEquals lexeme = false)
    (equals : isEquals sign = true)
    (failed : (fieldUpTo depth).parseAll (before ++ sign :: behind) = .error failure) :
    (∃ value, headReading depth 0 before value) ↔ before.length < failure.index := by
  have kind : sign.kind = .equals := by simpa [isEquals] using equals
  have complete {value} (read : headReading depth 0 before value) :
      ∃ next, headUpTo depth (Cursor.start (before ++ sign :: behind)) = .matched value next ∧
        next.rest = sign :: behind ∧ next.index = before.length := by
    have shape : (Cursor.start (before ++ sign :: behind)).rest = before ++ sign :: behind := rfl
    obtain ⟨next, matched, rest, index⟩ := headUpTo_complete depth shape read (by simp [kind])
    exact ⟨next, matched, rest, by simpa [Cursor.start] using index⟩
  constructor
  · rintro ⟨value, read⟩
    obtain ⟨next, matched, rest, index⟩ := complete read
    exact index ▸ lt_of_head_matched matched rest equals failed
  · intro beyond
    have within := headUpTo_keeps spared_isEquals depth
      (Cursor.sane_start isEquals (before ++ sign :: behind))
    rw [heldFor_append behind plain equals] at within
    cases shape : headUpTo depth (Cursor.start (before ++ sign :: behind)) with
    | unmatched =>
        rw [parseAll, fieldUpTo_of_unmatched shape] at failed
        cases failed
        exact absurd beyond (Nat.not_lt_zero _)
    | failed early branch =>
        obtain ⟨final, read⟩ := fieldUpTo_of_failed shape
        rw [parseAll, read] at failed
        rw [shape] at within
        have inside := within.2.2.2
        cases failed
        omega
    | matched value next =>
        rw [shape] at within
        obtain ⟨used, moves, headRead⟩ := headUpTo_sound depth shape
        have reached := within.1.index_le
        have index : next.index = used.length := by simpa [Cursor.start] using moves.2
        have whole : before ++ sign :: behind = used ++ next.rest := moves.1
        by_cases short : used.length = before.length
        · rw [(List.append_inj whole short.symm).1]
          exact ⟨value, headRead⟩
        · obtain ⟨first, tail, rest, member⟩ := exists_mem_left whole (by omega)
          have inside := le_of_head_stopped shape rest (plain first member) within.1 failed
          omega

theorem field_parseAll_iff_head {before : List Lexeme} {depth : Nat}
    (deep : before.length ≤ depth) :
    (∃ parsed, field.parseAll before = .ok parsed ∧ parsed.default = none) ↔
      ∃ value, headReading depth 0 before value := by
  constructor
  · rintro ⟨parsed, accepted, noDefault⟩
    rw [field_parseAll_iff] at accepted
    obtain ⟨⟨base, suffixes, default⟩, ⟨front, back, rfl, baseRead, middle, last, rfl, suffixesRead,
      defaultRead⟩, rfl⟩ := accepted
    obtain rfl : default = none := noDefault
    have empty : last = [] := defaultRead
    subst empty
    simp only [List.length_append] at deep
    exact ⟨(base, suffixes), front, middle ++ [], rfl, typeReading_of_length baseRead (by omega),
      by simpa using suffixesRead⟩
  · rintro ⟨⟨base, suffixes⟩, front, middle, rfl, baseRead, suffixesRead⟩
    refine ⟨⟨base, suffixes, none⟩, (field_parseAll_iff _ _).mpr ?_, rfl⟩
    refine ⟨(base, suffixes, none),
      ⟨front, middle, rfl, ?_, middle, [], by simp, suffixesRead, rfl⟩, rfl⟩
    refine typeReading_of_length baseRead ?_
    rw [List.length_append]
    omega

theorem no_equals_of_head {depth : Nat} {used : List Lexeme}
    {value : TypeSyntax × List (Nat × Suffix)} (read : headReading depth 0 used value) :
    ∀ lexeme ∈ used, isEquals lexeme = false := by
  have shape : (Cursor.start used).rest = used ++ [] := (List.append_nil used).symm
  obtain ⟨next, matched, _, index⟩ := headUpTo_complete depth shape read (follow_nil _)
  have within := headUpTo_keeps spared_isEquals depth (Cursor.sane_start isEquals used)
  rw [matched] at within
  have reached := within.1.index_le
  rw [index, Cursor.start, Nat.zero_add] at reached
  have all : (used.takeWhile fun lexeme => !isEquals lexeme) = used :=
    (List.takeWhile_prefix _).eq_of_length_le reached
  intro lexeme member
  rw [← all] at member
  simpa using List.mem_takeWhile_imp member

end Grammar

end Expression

namespace Field

open Grammar

theorem default_of_ofSyntax {parsed : FieldSyntax} {bound : Nat} {fault : Fault}
    (inside : parsed.Inside bound) (failed : ofSyntax parsed = .error fault)
    (kind : fault.cause.kind = .invalidDefault) :
    ∃ written, parsed.default = some (fault.index, written) := by
  unfold ofSyntax at failed
  cases base : TypeExpr.ofSyntax parsed.base with
  | error other =>
      rw [base] at failed
      cases failed
      have typeKind := (TypeExpr.ofSyntax_faults inside.base fault base).1
      simp [kind, TypeExpr.faultKinds] at typeKind
  | ok expr =>
      rw [base] at failed
      simp only [bind, Except.bind] at failed
      split at failed
      next other suffixes =>
        cases failed
        have suffixKind := (addSuffixes_faults _ inside.suffixes fault suffixes).1
        simp [kind] at suffixKind
      next field _ =>
        split at failed
        next => cases failed
        next index written default =>
          split at failed
          next other unread =>
            cases failed
            rw [default, (DefaultValue.ofSyntax_error unread).2]
            exact ⟨written, rfl⟩
          next => cases failed

theorem exists_head_of_default {lexemes : List Lexeme} {parsed : FieldSyntax} {index : Nat}
    {written : DefaultSyntax} (read : field.parseAll lexemes = .ok parsed)
    (default : parsed.default = some (index, written)) :
    ∃ before sign behind head, lexemes = before ++ sign :: behind ∧ isEquals sign = true ∧
      headReading (lexemes.length + 1) 0 before head ∧ index = before.length + 1 := by
  rw [field_parseAll_iff] at read
  obtain ⟨⟨base, suffixes, _⟩, ⟨front, back, rfl, baseRead, middle, last, rfl, suffixesRead,
    defaultRead⟩, rfl⟩ := read
  cases default
  obtain ⟨⟨sign, _⟩, ⟨left, right, rfl, ⟨rfl, equals⟩, place, _⟩, rfl⟩ := defaultRead
  refine ⟨front ++ middle, sign, right, (base, suffixes), by simp, equals,
    ⟨front, middle, rfl, baseRead, suffixesRead⟩, ?_⟩
  dsimp only at place
  rw [List.length_append, place]
  simp

theorem exists_split_of_findIdx? {lexemes : List Lexeme} {index : Nat}
    (found : lexemes.findIdx? (fun lexeme => lexeme.kind = .equals) = some index) :
    ∃ before sign behind, lexemes = before ++ sign :: behind ∧ isEquals sign = true ∧
      (∀ lexeme ∈ before, isEquals lexeme = false) ∧ before.length = index := by
  rw [List.findIdx?_eq_some_iff_getElem] at found
  obtain ⟨bound, equals, earlier⟩ := found
  have length : (lexemes.take index).length = index := by
    rw [List.length_take, Nat.min_eq_left (Nat.le_of_lt bound)]
  refine ⟨lexemes.take index, lexemes[index], lexemes.drop (index + 1), ?_, equals, ?_, length⟩
  · rw [List.getElem_cons_drop, List.take_append_drop]
  · intro lexeme member
    obtain ⟨number, inside, rfl⟩ := List.getElem_of_mem member
    rw [length] at inside
    rw [List.getElem_take]
    simpa [isEquals] using earlier number inside

theorem findIdx?_sign {before behind : List Lexeme} {sign : Lexeme}
    (plain : ∀ lexeme ∈ before, isEquals lexeme = false) (equals : isEquals sign = true) :
    (before ++ sign :: behind).findIdx? (fun lexeme => lexeme.kind = .equals) =
      some before.length := by
  have none : before.findIdx? (fun lexeme => decide (lexeme.kind = .equals)) = none := by
    rw [List.findIdx?_eq_none_iff]
    exact plain
  have kind : decide (sign.kind = .equals) = true := equals
  rw [List.findIdx?_append, none]
  simp [List.findIdx?_cons, kind]

/--
The first equals sign stands at the index or in front of it. What stands in front of that sign is a
field of its own exactly if the index lies behind the sign.
-/
def BlamesDefault (lexemes : List Lexeme) (index : Nat) : Prop :=
  ∃ before sign behind, lexemes = before ++ sign :: behind ∧ isEquals sign = true ∧
    (∀ lexeme ∈ before, isEquals lexeme = false) ∧ before.length ≤ index ∧
    ((∃ parsed, field.parseAll before = .ok parsed ∧ parsed.default = none) ↔
      before.length < index)

theorem length_le_depth (before behind : List Lexeme) :
    before.length ≤ (before ++ behind).length + 1 := by
  rw [List.length_append]
  omega

theorem blamesDefault_of_read {lexemes : List Lexeme} {parsed : FieldSyntax} {fault : Fault}
    (read : field.parseAll lexemes = .ok parsed) (failed : ofSyntax parsed = .error fault)
    (kind : fault.cause.kind = .invalidDefault) : BlamesDefault lexemes fault.index := by
  have inside := fieldReading_inside ((field_parseAll_iff _ _).mp read) (Nat.le_refl _)
  obtain ⟨written, default⟩ := default_of_ofSyntax inside failed kind
  obtain ⟨before, sign, behind, head, rfl, equals, headRead, place⟩ :=
    exists_head_of_default read default
  refine ⟨before, sign, behind, rfl, equals, no_equals_of_head headRead, by omega, ?_⟩
  rw [field_parseAll_iff_head (length_le_depth before _)]
  exact iff_of_true ⟨head, headRead⟩ (by omega)

theorem blamesDefault_of_unread {lexemes : List Lexeme} {failure : Failure}
    (refused : field.parseAll lexemes = .error failure)
    (kind : (faultOf failure lexemes).cause.kind = .invalidDefault) :
    BlamesDefault lexemes (faultOf failure lexemes).index := by
  have place := (faultOf_kind failure lexemes).2
  unfold faultOf at kind
  dsimp only at kind
  split at kind
  next => cases kind
  next index found =>
    split_ifs at kind with reached
    · obtain ⟨before, sign, behind, rfl, equals, plain, length⟩ := exists_split_of_findIdx? found
      rw [Parser.parseAll, field_start, ← Parser.parseAll] at refused
      refine ⟨before, sign, behind, rfl, equals, plain, ?_, ?_⟩
      · rw [place, length]
        exact reached
      · rw [field_parseAll_iff_head (length_le_depth before _), place]
        exact exists_head_iff plain equals refused
    · cases kind

theorem ofLexemes_invalidDefault {lexemes : List Lexeme} {fault : Fault}
    (failed : ofLexemes lexemes = .error fault) (kind : fault.cause.kind = .invalidDefault) :
    BlamesDefault lexemes fault.index := by
  unfold ofLexemes at failed
  split at failed
  next =>
    cases failed
    cases kind
  next first rest =>
    split_ifs at failed with modifier arrow noName unknown
    · cases failed
      cases kind
    · have relationKind :=
        ((Relation.ofLexemes_faults_of_arrow arrow rest).map ofRelation fault failed).1
      simp [kind] at relationKind
    · cases failed
      cases kind
    · cases failed
      cases kind
    · split at failed
      next parsed read => exact blamesDefault_of_read read failed kind
      next failure refused =>
        cases failed
        exact blamesDefault_of_unread refused kind

/--
A refused default has an equals sign at it or in front of it. The text in front of the first sign
is a field of its own exactly if the fault lies behind the sign.
-/
theorem parse_invalidDefault {text : Text} {error : ParseError}
    (failed : parse text = .error error) (kind : error.kind = .invalidDefault) :
    ∃ sign, (tokenize text).find? (fun token => token.kind = .equals) = some sign ∧
      sign.position.offset ≤ error.position.offset ∧
      ((∃ parsed, field.parseAll (lexemesOf (tokenize (text.take sign.position.offset))) =
          .ok parsed ∧ parsed.default = none) ↔
        sign.position.offset < error.position.offset) := by
  unfold parse Expression.read at failed
  split_ifs at failed
  · cases failed
    cases kind
  · cases failed
    cases kind
  · dsimp only at failed
    split at failed
    next => cases failed
    next fault found =>
      cases failed
      obtain ⟨before, equalsSign, behind, whole, equals, plain, reached, accepted⟩ :=
        ofLexemes_invalidDefault found kind
      have length : (lexemesOf (tokenize text)).length < (tokenize text).length := by
        obtain ⟨inner, last, tokens, _⟩ := (tokenize_isSegmentation text).ends
        simp [lexemesOf, tokens]
      have inside := (ofLexemes_faults _ fault found).2
      obtain ⟨refused, faultAt⟩ : ∃ token, (tokenize text)[fault.index]? = some token :=
        ⟨_, List.getElem?_eq_getElem (Nat.lt_of_le_of_lt inside length)⟩
      obtain ⟨sign, signAt⟩ : ∃ token, (tokenize text)[before.length]? = some token :=
        ⟨_, List.getElem?_eq_getElem (Nat.lt_of_le_of_lt (Nat.le_trans reached inside) length)⟩
      have number : (tokenize text).findIdx? (fun token => token.kind = .equals) =
          some before.length := by
        rw [← findIdx?_equals, whole, findIdx?_sign plain equals]
      refine ⟨sign, ?_, ?_, ?_⟩
      · rw [List.find?_eq_bind_findIdx?_getElem?, number, Option.bind_some, signAt]
      · simpa [Fault.locate, faultAt] using (offset_le_iff signAt faultAt).mpr reached
      · have order := offset_le_iff faultAt signAt
        rw [lexemesOf_tokenize_take signAt, whole, List.take_left, accepted]
        simp only [Fault.locate, faultAt, Option.map_some, Option.getD_some]
        omega

def unclosedDecimal : Text := utf8 "decimal(10,2 = 0"

def bracedDefault : Text := utf8 "varchar(10)! = \x7ba\x7d"

theorem parse_invalidDefault_braced :
    ∃ error, parse bracedDefault = .error error ∧ error.kind = .invalidDefault ∧
      error.position = ⟨1, 17, 16⟩ ∧
      ∃ sign, (tokenize bracedDefault).find? (fun token => token.kind = .equals) = some sign ∧
        sign.position.offset ≤ error.position.offset ∧
        ((∃ parsed, field.parseAll
            (lexemesOf (tokenize (bracedDefault.take sign.position.offset))) = .ok parsed ∧
            parsed.default = none) ↔ sign.position.offset < error.position.offset) := by
  have visible : bracedDefault.isBlank = false :=
    Text.isBlank_of_ascii (by decide) (by decide) _
  have tokens : tokenize bracedDefault =
      [⟨⟨.typeName, utf8 "varchar"⟩, ⟨1, 1, 0⟩⟩, ⟨⟨.lParen, utf8 "("⟩, ⟨1, 8, 7⟩⟩,
        ⟨⟨.number, utf8 "10"⟩, ⟨1, 9, 8⟩⟩, ⟨⟨.rParen, utf8 ")"⟩, ⟨1, 11, 10⟩⟩,
        ⟨⟨.modifier, utf8 "!"⟩, ⟨1, 12, 11⟩⟩, ⟨⟨.equals, utf8 "="⟩, ⟨1, 14, 13⟩⟩,
        ⟨⟨.lBrace, utf8 "\x7b"⟩, ⟨1, 16, 15⟩⟩, ⟨⟨.ident, utf8 "a"⟩, ⟨1, 17, 16⟩⟩,
        ⟨⟨.rBrace, utf8 "\x7d"⟩, ⟨1, 18, 17⟩⟩, ⟨⟨.eof, []⟩, ⟨1, 19, 18⟩⟩] := by
    decide +kernel
  have failed : parse bracedDefault = .error
      { cause := .unexpectedDefault (utf8 "a") (some (utf8 "\"\x7d\"")),
        position := ⟨1, 17, 16⟩ } := by
    rw [parse, Expression.read, visible, tokens]
    rfl
  exact ⟨_, failed, rfl, rfl, parse_invalidDefault failed rfl⟩

/-- An argument list that is not closed in front of an equals sign is blamed on the default. -/
theorem parse_invalidDefault_unclosed :
    ∃ error sign, parse unclosedDecimal = .error error ∧ error.kind = .invalidDefault ∧
      (tokenize unclosedDecimal).find? (fun token => token.kind = .equals) = some sign ∧
      error.position = sign.position ∧
      ¬∃ parsed, field.parseAll
        (lexemesOf (tokenize (unclosedDecimal.take sign.position.offset))) = .ok parsed := by
  have visible : unclosedDecimal.isBlank = false :=
    Text.isBlank_of_ascii (by decide) (by decide) _
  have tokens : tokenize unclosedDecimal =
      [⟨⟨.typeName, utf8 "decimal"⟩, ⟨1, 1, 0⟩⟩, ⟨⟨.lParen, utf8 "("⟩, ⟨1, 8, 7⟩⟩,
        ⟨⟨.number, utf8 "10"⟩, ⟨1, 9, 8⟩⟩, ⟨⟨.comma, utf8 ","⟩, ⟨1, 11, 10⟩⟩,
        ⟨⟨.number, utf8 "2"⟩, ⟨1, 12, 11⟩⟩, ⟨⟨.equals, utf8 "="⟩, ⟨1, 14, 13⟩⟩,
        ⟨⟨.number, utf8 "0"⟩, ⟨1, 16, 15⟩⟩, ⟨⟨.eof, []⟩, ⟨1, 17, 16⟩⟩] := by
    decide +kernel
  have failed : parse unclosedDecimal = .error
      { cause := .unexpectedDefault (utf8 "=") (some (utf8 "\")\"")),
        position := ⟨1, 14, 13⟩ } := by
    rw [parse, Expression.read, visible, tokens]
    rfl
  have signAt : (tokenize unclosedDecimal)[5]? =
      some ⟨⟨.equals, utf8 "="⟩, ⟨1, 14, 13⟩⟩ := by
    rw [tokens]
    rfl
  have refused : field.parseAll ((lexemesOf (tokenize unclosedDecimal)).take 5) =
      .error ⟨5, some (utf8 "\")\"")⟩ := by
    rw [tokens]
    rfl
  refine ⟨_, ⟨⟨.equals, utf8 "="⟩, ⟨1, 14, 13⟩⟩, failed, rfl, ?_, rfl, ?_⟩
  · rw [tokens]
    rfl
  · rintro ⟨parsed, accepted⟩
    rw [lexemesOf_tokenize_take signAt, refused] at accepted
    cases accepted

end Field

end EntitySchema
