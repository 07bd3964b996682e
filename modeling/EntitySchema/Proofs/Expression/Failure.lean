import EntitySchema.Expression.Grammar
import EntitySchema.Proofs.Expression.Syntax

/-!
Where a parser fails. A parser moves forward and never beyond the first lexeme that none of its
parts reads; its failures, the remembered one included, stand between the cursor they were met at
and that lexeme. Without such a lexeme the bound is the end of the list.
-/

namespace EntitySchema.Expression

variable {α β : Type} {stop : Lexeme → Bool} {bound : Nat}

def heldFor (stop : Lexeme → Bool) (lexemes : List Lexeme) : Nat :=
  (lexemes.takeWhile fun lexeme => !stop lexeme).length

theorem heldFor_le (stop : Lexeme → Bool) (lexemes : List Lexeme) :
    heldFor stop lexemes ≤ lexemes.length :=
  (List.takeWhile_prefix _).length_le

structure Cursor.Sane (stop : Lexeme → Bool) (bound : Nat) (cursor : Cursor) : Prop where
  held : cursor.index + heldFor stop cursor.rest = bound
  fresh : cursor.deepest = none → cursor.deepestAt = 0
  ahead : ∀ failure ∈ cursor.deepest, cursor.deepestAt ≤ failure.index
  inside : ∀ failure ∈ cursor.deepest, failure.index ≤ bound

def Outcome.Within (stop : Lexeme → Bool) (bound start : Nat) : Outcome α → Prop
  | .matched _ next => next.Sane stop bound ∧ start ≤ next.index
  | .unmatched => True
  | .failed failure branch => branch.Sane stop bound ∧ start ≤ branch.index ∧
      branch.index ≤ failure.index ∧ failure.index ≤ bound

theorem Outcome.Within.mono {outcome : Outcome α} {start earlier : Nat}
    (within : outcome.Within stop bound start) (before : earlier ≤ start) :
    outcome.Within stop bound earlier := by
  cases outcome with
  | matched value next => exact ⟨within.1, Nat.le_trans before within.2⟩
  | unmatched => trivial
  | failed failure branch => exact ⟨within.1, Nat.le_trans before within.2.1, within.2.2⟩

/-- The parser fails between where it starts and the first lexeme that passes the test. -/
def Parser.Keeps (stop : Lexeme → Bool) (parser : Parser α) : Prop :=
  ∀ ⦃bound cursor⦄, cursor.Sane stop bound → (parser cursor).Within stop bound cursor.index

namespace Cursor

variable {cursor branch : Cursor} {failure : Failure}

theorem sane_start (stop : Lexeme → Bool) (lexemes : List Lexeme) :
    (start lexemes).Sane stop (heldFor stop lexemes) := by
  constructor
  · exact Nat.zero_add _
  · intro _
    rfl
  · simp [start]
  · simp [start]

theorem Sane.index_le (sane : cursor.Sane stop bound) : cursor.index ≤ bound := by
  have held := sane.held
  omega

theorem Sane.note (sane : cursor.Sane stop bound) (ahead : cursor.index ≤ failure.index)
    (inside : failure.index ≤ bound) : (cursor.note failure).Sane stop bound := by
  unfold Cursor.note
  split
  · exact ⟨sane.held, nofun, by simpa using ahead, by simpa using inside⟩
  · exact sane

theorem Sane.accept (sane : cursor.Sane stop bound) (branchSane : branch.Sane stop bound) :
    (cursor.accept branch).Sane stop bound := by
  unfold Cursor.accept
  split
  · exact branchSane
  · exact ⟨branchSane.held, sane.fresh, sane.ahead, sane.inside⟩

theorem Sane.learn (sane : cursor.Sane stop bound) (branchSane : branch.Sane stop bound)
    (ahead : branch.index ≤ failure.index) (inside : failure.index ≤ bound) :
    (cursor.learn failure branch).Sane stop bound := by
  unfold Cursor.learn
  split
  next => exact ⟨sane.held, branchSane.fresh, branchSane.ahead, branchSane.inside⟩
  next shallow =>
    split
    next reached =>
      refine ⟨sane.held, nofun, ?_, by simpa using inside⟩
      intro other member
      obtain rfl : failure = other := by simpa using member
      dsimp only
      omega
    next => exact sane

end Cursor

namespace Parser

variable {parser : Parser α} {continuation : Parser β} {cursor branch : Cursor}
  {failure : Failure}

theorem lexeme_keeps {test : Lexeme → Bool}
    (spared : ∀ lexeme, test lexeme = true → stop lexeme = false) :
    (lexeme test).Keeps stop := by
  intro bound cursor sane
  unfold lexeme
  split
  next => trivial
  next first rest shape =>
    split
    next passed =>
      refine ⟨⟨?_, sane.fresh, sane.ahead, sane.inside⟩, Nat.le_succ _⟩
      have held := sane.held
      rw [shape, heldFor, List.takeWhile_cons_of_pos (by simp [spared first passed]),
        List.length_cons] at held
      change cursor.index + 1 + (rest.takeWhile fun lexeme => !stop lexeme).length = bound
      omega
    next => trivial

theorem Keeps.map (keeps : parser.Keeps stop) (transform : α → β) :
    (parser.map transform).Keeps stop := by
  intro bound cursor sane
  have within := keeps sane
  unfold Parser.map
  cases shape : parser cursor with
  | matched value next =>
      rw [shape] at within
      exact within
  | unmatched => trivial
  | failed failure next =>
      rw [shape] at within
      exact within

theorem Keeps.located (keeps : parser.Keeps stop) : parser.located.Keeps stop :=
  fun _ cursor sane => keeps.map (fun value => (cursor.index, value)) sane

theorem Keeps.node (keeps : parser.Keeps stop) : parser.node.Keeps stop := by
  intro bound cursor sane
  have within := keeps sane
  unfold Parser.node
  cases shape : parser cursor with
  | matched value next => simpa [shape] using within
  | unmatched => trivial
  | failed failure branch =>
      rw [shape] at within
      obtain ⟨branchSane, moved, ahead, inside⟩ := within
      exact ⟨branchSane.note ahead inside, by simpa using moved, by simpa using ahead, inside⟩

theorem Keeps.followedBy (keeps : parser.Keeps stop) (expected : Text)
    (later : continuation.Keeps stop) :
    (parser.followedBy expected continuation).Keeps stop := by
  intro bound cursor sane
  have within := keeps sane
  unfold Parser.followedBy
  cases shape : parser cursor with
  | unmatched => trivial
  | failed failure branch =>
      rw [shape] at within
      exact within
  | matched value next =>
      rw [shape] at within
      obtain ⟨nextSane, moved⟩ := within
      have behind := (later nextSane).mono moved
      dsimp only
      cases tail : continuation next with
      | matched second final =>
          rw [tail] at behind
          exact behind
      | unmatched => exact ⟨nextSane, moved, Nat.le_refl _, nextSane.index_le⟩
      | failed failure final =>
          rw [tail] at behind
          exact behind

theorem Keeps.andThen (keeps : parser.Keeps stop) (later : continuation.Keeps stop) :
    (parser.andThen continuation).Keeps stop := by
  intro bound cursor sane
  have within := keeps sane
  unfold Parser.andThen
  cases shape : parser cursor with
  | unmatched => trivial
  | failed failure branch =>
      rw [shape] at within
      exact within
  | matched value next =>
      rw [shape] at within
      exact (later.map (fun second => (value, second)) within.1).mono within.2

theorem firstOfFrom_keeps {parsers : List (Parser α)}
    (keeps : ∀ parser ∈ parsers, Keeps stop parser) {kept : Option (Nat × Failure)}
    (sane : cursor.Sane stop bound)
    (earlier : ∀ pair ∈ kept, cursor.index ≤ pair.2.index ∧ pair.2.index ≤ bound) :
    (firstOfFrom kept parsers cursor).Within stop bound cursor.index := by
  induction parsers generalizing kept cursor with
  | nil =>
      unfold firstOfFrom
      cases kept with
      | none => trivial
      | some pair =>
          obtain ⟨ahead, inside⟩ := earlier pair rfl
          exact ⟨sane.note ahead inside, by simp, by simpa using ahead, inside⟩
  | cons parser parsers ih =>
      have within := keeps parser (by simp) sane
      have others : ∀ parser ∈ parsers, Keeps stop parser :=
        fun other member => keeps other (by simp [member])
      unfold firstOfFrom
      cases shape : parser cursor with
      | matched value branch =>
          rw [shape] at within
          exact ⟨sane.accept within.1, by simpa using within.2⟩
      | unmatched => exact ih others sane earlier
      | failed failure branch =>
          rw [shape] at within
          obtain ⟨branchSane, moved, ahead, inside⟩ := within
          have learnt := sane.learn branchSane ahead inside
          have same := Cursor.learn_index cursor failure branch
          dsimp only
          split
          next =>
            exact ⟨learnt.accept branchSane, by simpa using moved, by simpa using ahead, inside⟩
          next =>
            rw [← same]
            split
            next =>
              refine ih others learnt ?_
              intro pair member
              obtain rfl : (branch.index, failure) = pair := by simpa using member
              rw [same]
              exact ⟨Nat.le_trans moved ahead, inside⟩
            next => exact ih others learnt (same ▸ earlier)

theorem firstOf_keeps {parsers : List (Parser α)} (keeps : ∀ parser ∈ parsers, Keeps stop parser) :
    (firstOf parsers).Keeps stop :=
  fun _ _ sane => firstOfFrom_keeps keeps sane nofun

theorem forgive_within (sane : cursor.Sane stop bound) (branchSane : branch.Sane stop bound)
    (moved : cursor.index ≤ branch.index) (ahead : branch.index ≤ failure.index)
    (inside : failure.index ≤ bound) (otherwise : α) :
    (forgive cursor failure branch otherwise).Within stop bound cursor.index := by
  have learnt := (sane.note (Nat.le_trans moved ahead) inside).learn branchSane ahead inside
  unfold forgive
  dsimp only
  split
  · exact ⟨learnt.accept branchSane, by simpa using moved, by simpa using ahead, inside⟩
  · exact ⟨learnt, by simp⟩

theorem Keeps.optional (keeps : parser.Keeps stop) : parser.optional.Keeps stop := by
  intro bound cursor sane
  have within := keeps sane
  unfold Parser.optional
  cases shape : parser cursor with
  | matched value branch =>
      rw [shape] at within
      exact ⟨sane.accept within.1, by simpa using within.2⟩
  | unmatched => exact ⟨sane, Nat.le_refl _⟩
  | failed failure branch =>
      rw [shape] at within
      obtain ⟨branchSane, moved, ahead, inside⟩ := within
      exact forgive_within sane branchSane moved ahead inside none

theorem Keeps.manyUpTo (keeps : parser.Keeps stop) (limit : Nat) (done : List α) :
    (parser.manyUpTo limit done).Keeps stop := by
  induction limit generalizing done with
  | zero => exact fun _ _ sane => ⟨sane, Nat.le_refl _⟩
  | succ limit ih =>
      intro bound cursor sane
      have within := keeps sane
      unfold Parser.manyUpTo
      cases shape : parser cursor with
      | matched value branch =>
          rw [shape] at within
          exact (ih (value :: done) (sane.accept within.1)).mono (by simpa using within.2)
      | unmatched => exact ⟨sane, Nat.le_refl _⟩
      | failed failure branch =>
          rw [shape] at within
          obtain ⟨branchSane, moved, ahead, inside⟩ := within
          exact forgive_within sane branchSane moved ahead inside done.reverse

theorem Keeps.many (keeps : parser.Keeps stop) : parser.many.Keeps stop :=
  fun _ cursor sane => keeps.manyUpTo cursor.rest.length [] sane

theorem parseAll_error_of_matched {lexemes : List Lexeme} {value : α} {next : Cursor}
    (matched : parser (Cursor.start lexemes) = .matched value next) (sane : next.Sane stop bound)
    (failed : parser.parseAll lexemes = .error failure) :
    next.rest ≠ [] ∧ next.index ≤ failure.index ∧ next.deepestAt ≤ failure.index ∧
      failure.index ≤ bound := by
  unfold parseAll at failed
  rw [matched] at failed
  dsimp only at failed
  split at failed
  next => cases failed
  next left =>
    refine ⟨by simpa using left, ?_⟩
    split at failed
    next deeper =>
      cases failed
      cases remembered : next.deepest with
      | none =>
          have fresh := sane.fresh remembered
          omega
      | some deepest =>
          have ahead := sane.ahead deepest remembered
          exact ⟨Nat.le_trans (Nat.le_of_lt deeper) ahead, ahead, sane.inside deepest remembered⟩
    next shallow =>
      cases failed
      exact ⟨Nat.le_refl _, Nat.not_lt.mp shallow, sane.index_le⟩

theorem Keeps.parseAll_error_le (keeps : parser.Keeps stop) {lexemes : List Lexeme}
    (failed : parser.parseAll lexemes = .error failure) : failure.index ≤ heldFor stop lexemes := by
  have within := keeps (Cursor.sane_start stop lexemes)
  cases shape : parser (Cursor.start lexemes) with
  | unmatched =>
      rw [parseAll, shape] at failed
      cases failed
      exact Nat.zero_le _
  | failed found branch =>
      rw [parseAll, shape] at failed
      rw [shape] at within
      cases failed
      exact within.2.2.2
  | matched value next =>
      rw [shape] at within
      exact (parseAll_error_of_matched shape within.1 failed).2.2.2

end Parser

namespace Grammar

open EntitySchema.Expression.Parser

theorem separated_keeps {item : Parser α} (itemName : Text) (keeps : item.Keeps stop)
    (commas : (ofKind .comma).Keeps stop) : (separated item itemName).Keeps stop :=
  (keeps.andThen ((commas.followedBy itemName keeps).map Prod.snd).many).optional.map _

theorem bracketed_keeps {item : Parser α} {opening closing : TokenKind}
    (itemName closingName : Text) (openings : (ofKind opening).Keeps stop)
    (keeps : item.Keeps stop) (commas : (ofKind .comma).Keeps stop)
    (closings : (ofKind closing).Keeps stop) :
    (bracketed opening item itemName closing closingName).Keeps stop :=
  (openings.andThen ((separated_keeps itemName keeps commas).followedBy closingName closings)).map _

def Spared (stop : Lexeme → Bool) : Prop :=
  ∀ lexeme : Lexeme, lexeme.kind ≠ .equals → stop lexeme = false

variable (spared : Spared stop)
include spared

theorem ofKind_keeps {kind : TokenKind} (other : kind ≠ .equals) : (ofKind kind).Keeps stop := by
  apply lexeme_keeps
  intro lexeme same
  rw [decide_eq_true_eq] at same
  exact spared lexeme (same ▸ other)

theorem name_keeps : name.Keeps stop := by
  apply lexeme_keeps
  intro lexeme isName
  apply spared lexeme
  intro equals
  simp [Lexeme.isName, equals] at isName

theorem parameter_keeps : parameter.Keeps stop := by
  have found : (lexeme isParameter).Keeps stop := by
    apply lexeme_keeps
    intro lexeme passed
    apply spared lexeme
    intro equals
    simp [isParameter, equals] at passed
  exact (found.located.map _).node

theorem typeUpTo_keeps (depth : Nat) : (typeUpTo depth).Keeps stop := by
  induction depth with
  | zero => exact fun _ _ _ => trivial
  | succ depth ih =>
      refine (((name_keeps spared).andThen (Keeps.optional (firstOf_keeps ?_))).located.map _).node
      intro parser member
      simp only [List.mem_cons, List.not_mem_nil, or_false] at member
      have commas : (ofKind .comma).Keeps stop := ofKind_keeps spared (by decide)
      rcases member with rfl | rfl
      · exact (bracketed_keeps _ _ (ofKind_keeps spared (by decide)) (parameter_keeps spared)
          commas (ofKind_keeps spared (by decide))).map _
      · exact (bracketed_keeps _ _ (ofKind_keeps spared (by decide)) ih commas
          (ofKind_keeps spared (by decide))).map _

theorem arraySuffix_keeps : arraySuffix.Keeps stop :=
  ((ofKind_keeps spared (by decide)).followedBy _ (ofKind_keeps spared (by decide))).map _

theorem suffix_keeps : suffix.Keeps stop := by
  refine (Keeps.located (firstOf_keeps ?_)).node
  intro parser member
  simp only [List.mem_cons, List.not_mem_nil, or_false] at member
  rcases member with rfl | rfl
  · exact (arraySuffix_keeps spared).map _
  · exact (ofKind_keeps spared (by decide)).map _

theorem default_keeps : default.Keeps stop := by
  refine (Keeps.located (firstOf_keeps ?_)).node
  intro parser member
  simp only [List.mem_cons, List.not_mem_nil, or_false] at member
  have kinds {kind : TokenKind} (other : kind ≠ .equals) := ofKind_keeps spared other
  rcases member with rfl | rfl | rfl | rfl | rfl | rfl
  · exact (((name_keeps spared).followedBy _ (kinds (by decide))).followedBy _
      (kinds (by decide))).map _
  · exact (kinds (by decide)).map _
  · exact (kinds (by decide)).map _
  · exact (kinds (by decide)).map _
  · exact ((kinds (by decide)).followedBy _ (kinds (by decide))).map _
  · exact (arraySuffix_keeps spared).map _

theorem relation_keeps : relation.Keeps stop := by
  have question : questionMark.Keeps stop := by
    apply lexeme_keeps
    intro lexeme passed
    apply spared lexeme
    intro equals
    simp [equals] at passed
  have dot : (ofKind .dot).Keeps stop := ofKind_keeps spared (by decide)
  have inverse := ((dot.followedBy (utf8 "(<ident> | <typename>)") (name_keeps spared)).map
    Prod.snd).optional
  have array := (arraySuffix_keeps spared).optional
  exact (((ofKind_keeps spared (by decide)).followedBy _ ((name_keeps spared).andThen
    (inverse.andThen (array.andThen question.optional)))).map _).node

omit spared

theorem fieldUpTo_keeps (depth : Nat) : (fieldUpTo depth).Keeps fun _ => false := by
  have spared : Spared fun _ => false := fun _ _ => rfl
  have sign : (ofKind .equals).Keeps fun _ => false := lexeme_keeps fun _ _ => rfl
  have assigned := ((sign.followedBy (utf8 "DefaultExpr") (default_keeps spared)).map
    Prod.snd).optional
  exact (((typeUpTo_keeps spared depth).andThen ((suffix_keeps spared).many.andThen
    assigned)).map _).node

theorem field_error_le {lexemes : List Lexeme} {failure : Failure}
    (failed : field.parseAll lexemes = .error failure) : failure.index ≤ lexemes.length := by
  rw [parseAll, field_start, ← parseAll] at failed
  exact Nat.le_trans ((fieldUpTo_keeps _).parseAll_error_le failed) (heldFor_le _ _)

end Grammar

end EntitySchema.Expression
