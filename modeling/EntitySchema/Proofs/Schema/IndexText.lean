import EntitySchema.Schema.Render
import Mathlib.Data.List.Infix

/-!
What the names and the indexes of a directive line tell. Names are written as they are, without
quotes, so a list can be taken apart again only if no name in it looks like the end of a name, of
an index or of a line.
-/

namespace EntitySchema

namespace Directives

def separator : Text := utf8 ", "

theorem separator_append (rest : Text) : separator ++ rest = 0x2C :: 0x20 :: rest := rfl

def lineEnd : Text := utf8 "]\n$"

def opening (index : Index) : Text := if index.isUnique then utf8 "\x7bfields: [" else utf8 "["

def closing (index : Index) : List Text :=
  if index.isUnique then [utf8 "unique: true\x7d"] else []

/-- A name that looks like the first one of an index, with the brackets in front of it. -/
def Opens (name : Text) : Prop := utf8 "[" <+: name ∨ utf8 "\x7bfields: [" <+: name

/-- No name but the last looks like the last one of an index that another index follows. -/
def Clear (tail names : List Text) : Prop :=
  ∀ front name first back, names = front ++ (name ++ utf8 "]") :: (tail ++ first :: back) →
    ¬Opens first

structure Plain (name : Text) : Prop where
  separate : ¬separator <:+: name
  inline : ¬lineEnd <:+: name

def StartsLine (rest : Text) : Prop := ∀ byte ∈ rest.head?, byte = 0x24

inductive Behind : Text → Prop
  | separator (rest : Text) : Behind (0x2C :: 0x20 :: rest)
  | lineEnd {rest : Text} : StartsLine rest → Behind (0x5D :: 0x0A :: rest)

theorem infix_of_prepend {part front text : Text} {first : Byte} {tail : Text}
    (shape : part = first :: tail) (outside : first ∉ front) (inside : part <:+: front ++ text) :
    part <:+: text := by
  obtain ⟨left, right, same⟩ := inside
  rw [List.append_assoc] at same
  obtain ⟨more, rfl, rest⟩ | ⟨more, rfl, rest⟩ := List.append_eq_append_iff.mp same
  · cases more with
    | nil => exact ⟨[], right, by simpa using rest⟩
    | cons byte more =>
        rw [shape] at rest
        obtain ⟨rfl, _⟩ := List.cons.inj rest
        simp at outside
  · exact ⟨more, right, by rw [rest, List.append_assoc]⟩

theorem infix_of_concat {part text : Text} {last byte : Byte} (shape : part.getLast? = some last)
    (other : last ≠ byte) (inside : part <:+: text ++ [byte]) : part <:+: text := by
  obtain suffix | inside := List.infix_concat_iff.mp inside
  · obtain ⟨front, same⟩ := suffix
    have ends := congrArg List.getLast? same
    rw [List.getLast?_append, shape, List.getLast?_concat] at ends
    exact absurd (Option.some.inj ends) other
  · exact inside

namespace Plain

theorem nil : Plain [] := by
  constructor <;> decide

theorem concat {name : Text} (plain : Plain name) : Plain (name ++ utf8 "]") := by
  constructor
  · intro inside
    exact plain.separate (infix_of_concat rfl (by decide) inside)
  · intro inside
    exact plain.inline (infix_of_concat rfl (by decide) inside)

theorem prepend {name : Text} (plain : Plain name) (index : Index) :
    Plain (opening index ++ name) := by
  have outside : (0x2C : Byte) ∉ opening index ∧ (0x5D : Byte) ∉ opening index := by
    unfold opening
    split <;> decide
  constructor
  · intro inside
    exact plain.separate (infix_of_prepend rfl outside.1 inside)
  · intro inside
    exact plain.inline (infix_of_prepend rfl outside.2 inside)

end Plain

theorem eq_nil_of_behind {name more rest : Text} (plain : Plain (name ++ more))
    (long : Behind (more ++ rest)) (short : Behind rest) : more = [] := by
  have starts : ∀ byte ∈ rest.head?, byte = 0x2C ∨ byte = 0x5D := by
    cases short <;> simp
  rcases more with _ | ⟨first, _ | ⟨second, more⟩⟩
  · rfl
  · generalize same : [first] ++ rest = whole at long
    cases long with
    | separator =>
        obtain ⟨_, rfl⟩ := List.cons.inj same
        simp at starts
    | lineEnd =>
        obtain ⟨_, rfl⟩ := List.cons.inj same
        simp at starts
  · generalize same : first :: second :: more ++ rest = whole at long
    cases long with
    | separator =>
        simp only [List.cons_append, List.cons.injEq] at same
        obtain ⟨rfl, rfl, _⟩ := same
        exact absurd ⟨name, more, List.append_assoc _ _ _⟩ plain.separate
    | lineEnd startsLine =>
        simp only [List.cons_append, List.cons.injEq] at same
        obtain ⟨rfl, rfl, rfl⟩ := same
        cases more with
        | nil =>
            cases short <;> simp [StartsLine] at startsLine
        | cons third more =>
            obtain rfl : third = 0x24 := by simpa [StartsLine] using startsLine
            exact absurd ⟨name, more, List.append_assoc _ _ _⟩ plain.inline

theorem Plain.append_inj {left right leftRest rightRest : Text} (leftPlain : Plain left)
    (rightPlain : Plain right) (leftBehind : Behind leftRest) (rightBehind : Behind rightRest)
    (same : left ++ leftRest = right ++ rightRest) : left = right ∧ leftRest = rightRest := by
  obtain ⟨more, rfl, rfl⟩ | ⟨more, rfl, rfl⟩ := List.append_eq_append_iff.mp same
  · obtain rfl := eq_nil_of_behind rightPlain leftBehind rightBehind
    simp
  · obtain rfl := eq_nil_of_behind leftPlain rightBehind leftBehind
    simp

theorem join_cons_append (name : Text) (names : List Text) {rest : Text}
    (starts : StartsLine rest) : ∃ tail, Behind tail ∧
      Text.join separator (name :: names) ++ 0x5D :: 0x0A :: rest = name ++ tail ∧
      (names = [] → tail = 0x5D :: 0x0A :: rest) ∧
      (names ≠ [] →
        tail = 0x2C :: 0x20 :: (Text.join separator names ++ 0x5D :: 0x0A :: rest)) := by
  cases names with
  | nil => exact ⟨_, .lineEnd starts, rfl, fun _ => rfl, by simp⟩
  | cons other names =>
      refine ⟨_, .separator _, ?_, by simp, fun _ => rfl⟩
      simp only [Text.join, List.append_assoc]
      rfl

theorem names_of_join {left right : List Text} (leftPlain : ∀ name ∈ left, Plain name)
    (rightPlain : ∀ name ∈ right, Plain name) (leftSome : left ≠ []) (rightSome : right ≠ [])
    {leftRest rightRest : Text} (leftStarts : StartsLine leftRest)
    (rightStarts : StartsLine rightRest)
    (same : Text.join separator left ++ 0x5D :: 0x0A :: leftRest =
      Text.join separator right ++ 0x5D :: 0x0A :: rightRest) :
    left = right ∧ leftRest = rightRest := by
  induction left generalizing right with
  | nil => exact absurd rfl leftSome
  | cons name names ih =>
      obtain ⟨other, others, rfl⟩ := List.exists_cons_of_ne_nil rightSome
      rw [List.forall_mem_cons] at leftPlain rightPlain
      obtain ⟨tail, behind, shape, last, more⟩ := join_cons_append name names leftStarts
      obtain ⟨otherTail, otherBehind, otherShape, otherLast, otherMore⟩ :=
        join_cons_append other others rightStarts
      rw [shape, otherShape] at same
      obtain ⟨rfl, rest⟩ := leftPlain.1.append_inj rightPlain.1 behind otherBehind same
      by_cases single : names = []
      · by_cases otherSingle : others = []
        · rw [last single, otherLast otherSingle] at rest
          simp only [List.cons.injEq, true_and] at rest
          exact ⟨by rw [single, otherSingle], rest⟩
        · rw [last single, otherMore otherSingle] at rest
          cases rest
      · by_cases otherSingle : others = []
        · rw [more single, otherLast otherSingle] at rest
          cases rest
        · rw [more single, otherMore otherSingle] at rest
          simp only [List.cons.injEq, true_and] at rest
          obtain ⟨rfl, behindList⟩ := ih leftPlain.2 rightPlain.2 single otherSingle rest
          exact ⟨rfl, behindList⟩

/-! An index is written as a list of pieces: its names, with the brackets at the outer ones. -/

def closed : Text → List Text → List Text
  | name, [] => [name ++ utf8 "]"]
  | name, other :: names => name :: closed other names

def opened (index : Index) : List Text → List Text
  | [] => []
  | name :: names => (opening index ++ name) :: names

def pieces (index : Index) : List Text :=
  opened index (closed (index.fields.headD []) index.fields.tail) ++ closing index

theorem closed_ne_nil (name : Text) (names : List Text) : closed name names ≠ [] := by
  cases names <;> simp [closed]

theorem join_append {left right : List Text} (leftSome : left ≠ []) (rightSome : right ≠ []) :
    Text.join separator (left ++ right) =
      Text.join separator left ++ separator ++ Text.join separator right := by
  induction left with
  | nil => exact absurd rfl leftSome
  | cons name names ih =>
      cases names with
      | nil =>
          obtain ⟨other, others, rfl⟩ := List.exists_cons_of_ne_nil rightSome
          rfl
      | cons second names =>
          have tail := ih (by simp)
          rw [List.cons_append] at tail
          simp only [List.cons_append, Text.join, tail, List.append_assoc]

theorem join_closed (name : Text) (names : List Text) :
    Text.join separator (closed name names) =
      Text.join separator (name :: names) ++ utf8 "]" := by
  induction names generalizing name with
  | nil => rfl
  | cons other names ih =>
      obtain ⟨first, rest, shape⟩ := List.exists_cons_of_ne_nil (closed_ne_nil other names)
      have tail := ih other
      rw [shape] at tail
      simp only [closed, shape, Text.join, tail, List.append_assoc]

theorem join_opened (index : Index) {names : List Text} (some : names ≠ []) :
    Text.join separator (opened index names) = opening index ++ Text.join separator names := by
  obtain ⟨name, names, rfl⟩ := List.exists_cons_of_ne_nil some
  cases names with
  | nil => rfl
  | cons other names => simp only [opened, Text.join, List.append_assoc]

theorem opened_ne_nil (index : Index) {names : List Text} (some : names ≠ []) :
    opened index names ≠ [] := by
  cases names with
  | nil => exact absurd rfl some
  | cons name names => nofun

theorem pieces_ne_nil (index : Index) : pieces index ≠ [] :=
  List.append_ne_nil_of_left_ne_nil (opened_ne_nil index (closed_ne_nil _ _)) _

theorem join_pieces (index : Index) : Text.join separator (pieces index) = indexText index := by
  have names : Text.join separator (index.fields.headD [] :: index.fields.tail) =
      Text.join separator index.fields := by
    cases index.fields <;> rfl
  have list : Text.join separator
      (opened index (closed (index.fields.headD []) index.fields.tail)) =
      opening index ++ (Text.join separator index.fields ++ utf8 "]") := by
    rw [join_opened index (closed_ne_nil _ _), join_closed, names]
  cases unique : index.isUnique with
  | false =>
      have last : closing index = [] := by simp [closing, unique]
      rw [pieces, last, List.append_nil, list]
      simp [opening, indexText, unique, nameList, separator]
  | true =>
      have last : closing index = [utf8 "unique: true\x7d"] := by simp [closing, unique]
      have some := opened_ne_nil index (closed_ne_nil (index.fields.headD []) index.fields.tail)
      rw [pieces, last, join_append some (List.cons_ne_nil _ _), list]
      simp only [opening, indexText, unique, if_true, nameList, separator, Text.join,
        List.append_assoc]
      rfl

theorem join_indexText (indexes : List Index) :
    Text.join separator (indexes.map indexText) =
      Text.join separator (indexes.flatMap pieces) := by
  induction indexes with
  | nil => rfl
  | cons index indexes ih =>
      cases indexes with
      | nil => simp [join_pieces, Text.join]
      | cons other indexes =>
          have someTail : (other :: indexes).flatMap pieces ≠ [] := by simp [pieces_ne_nil]
          rw [List.flatMap_cons, join_append (pieces_ne_nil index) someTail, ← ih, join_pieces]
          rfl

theorem plain_of_mem_closed {name : Text} {names : List Text} (plain : ∀ other ∈ name :: names,
    Plain other) : ∀ piece ∈ closed name names, Plain piece := by
  induction names generalizing name with
  | nil => simpa [closed] using (plain name (by simp)).concat
  | cons other names ih =>
      rw [List.forall_mem_cons] at plain
      simpa [closed] using And.intro plain.1 (ih plain.2)

theorem plain_of_mem_pieces {index : Index} (plain : ∀ name ∈ index.fields, Plain name) :
    ∀ piece ∈ pieces index, Plain piece := by
  have names : ∀ name ∈ index.fields.headD [] :: index.fields.tail, Plain name := by
    cases shape : index.fields with
    | nil => simpa using Plain.nil
    | cons name names => simpa [shape] using plain
  have inner := plain_of_mem_closed names
  obtain ⟨first, rest, shape⟩ := List.exists_cons_of_ne_nil
    (closed_ne_nil (index.fields.headD []) index.fields.tail)
  rw [shape, List.forall_mem_cons] at inner
  intro piece member
  simp only [pieces, shape, opened, List.mem_append, List.mem_cons] at member
  rcases member with (rfl | member) | member
  · exact inner.1.prepend index
  · exact inner.2 piece member
  · unfold closing at member
    split at member
    · obtain rfl := List.mem_singleton.mp member
      constructor <;> decide
    · simp at member

def StartsIndex (rest : List Text) : Prop := ∀ first ∈ rest.head?, Opens first

theorem opens_of_concat {name : Text} (opens : Opens (name ++ utf8 "]")) : Opens name := by
  have shorter {start : Text} (other : start.getLast? ≠ some 0x5D)
      (found : start <+: name ++ utf8 "]") : start <+: name := by
    obtain rfl | found := List.prefix_concat_iff.mp found
    · simp at other
    · exact found
  obtain found | found := opens
  · exact Or.inl (shorter (by decide) found)
  · exact Or.inr (shorter (by decide) found)

theorem opens_of_closed {name : Text} {names rest : List Text}
    (starts : StartsIndex (closed name names ++ rest)) : Opens name := by
  cases names with
  | nil => exact opens_of_concat (starts _ rfl)
  | cons other names => exact starts _ rfl

/-- An index that ends here for one reader and later for another has a name that opens an index. -/
theorem exists_opens {tail rest behind : List Text} {name : Text} {names : List Text}
    (noEnd : ∀ piece ∈ tail, ∀ text, piece ≠ text ++ utf8 "]") (starts : StartsIndex rest)
    (same : tail ++ rest = closed name names ++ behind) :
    ∃ first back, name :: names = tail ++ first :: back ∧ Opens first := by
  induction tail generalizing name names with
  | nil =>
      rw [List.nil_append] at same
      exact ⟨name, names, rfl, opens_of_closed (same ▸ starts)⟩
  | cons piece tail ih =>
      rw [List.forall_mem_cons] at noEnd
      cases names with
      | nil => exact absurd (List.cons.inj same).1 (noEnd.1 name)
      | cons other names =>
          obtain ⟨rfl, rest⟩ := List.cons.inj same
          obtain ⟨first, back, shape, opens⟩ := ih noEnd.2 rest
          exact ⟨first, back, by rw [shape, List.cons_append], opens⟩

theorem Clear.tail {tail names : List Text} {name : Text} (clear : Clear tail (name :: names)) :
    Clear tail names := by
  intro front last first back shape
  exact clear (name :: front) last first back (by rw [shape, List.cons_append])

theorem fields_of_closed {tail leftRest rightRest : List Text} {left right : Text}
    {lefts rights : List Text} (noEnd : ∀ piece ∈ tail, ∀ text, piece ≠ text ++ utf8 "]")
    (leftClear : Clear tail (left :: lefts)) (rightClear : Clear tail (right :: rights))
    (leftStarts : StartsIndex leftRest) (rightStarts : StartsIndex rightRest)
    (same : closed left lefts ++ (tail ++ leftRest) = closed right rights ++ (tail ++ rightRest)) :
    left = right ∧ lefts = rights ∧ leftRest = rightRest := by
  induction lefts generalizing left right rights with
  | nil =>
      obtain ⟨head, rest⟩ : left ++ utf8 "]" = (closed right rights).headD [] ∧
          tail ++ leftRest = (closed right rights).tail ++ (tail ++ rightRest) := by
        cases rights <;> simpa [closed] using same
      cases rights with
      | nil => exact ⟨List.append_cancel_right head, rfl, List.append_cancel_left rest⟩
      | cons other rights =>
          obtain ⟨first, back, shape, opens⟩ := exists_opens noEnd leftStarts rest
          have ended : left ++ utf8 "]" = right := head
          exact absurd opens (rightClear [] left first back (by rw [ended, shape]; rfl))
  | cons second lefts ih =>
      cases rights with
      | nil =>
          obtain ⟨head, rest⟩ := List.cons.inj same
          obtain ⟨first, back, shape, opens⟩ := exists_opens noEnd rightStarts rest.symm
          exact absurd opens (leftClear [] right first back (by rw [← head, shape]; rfl))
      | cons other rights =>
          obtain ⟨rfl, rest⟩ := List.cons.inj same
          obtain ⟨rfl, rfl, behind⟩ := ih leftClear.tail rightClear.tail rest
          exact ⟨rfl, rfl, behind⟩

theorem startsIndex_pieces (indexes : List Index) : StartsIndex (indexes.flatMap pieces) := by
  cases indexes with
  | nil => simp [StartsIndex]
  | cons index indexes =>
      obtain ⟨first, rest, shape⟩ := List.exists_cons_of_ne_nil
        (closed_ne_nil (index.fields.headD []) index.fields.tail)
      intro piece member
      rw [List.flatMap_cons, pieces, shape] at member
      obtain rfl : opening index ++ first = piece := by simpa [opened] using member
      unfold opening
      split
      · exact Or.inr (List.prefix_append _ _)
      · exact Or.inl (List.prefix_append _ _)

theorem clear_headD {tail names : List Text} (clear : Clear tail names) :
    Clear tail (names.headD [] :: names.tail) := by
  cases names with
  | nil =>
      intro front name first back shape
      obtain _ | ⟨_, front⟩ := front
      · simp at shape
      · simp at shape
  | cons name names => exact clear

theorem noEnd_closing (index : Index) :
    ∀ piece ∈ closing index, ∀ text : Text, piece ≠ text ++ utf8 "]" := by
  intro piece member text same
  unfold closing at member
  split at member
  · obtain rfl := List.mem_singleton.mp member
    have last := congrArg List.getLast? same
    rw [show utf8 "]" = [0x5D] from rfl, List.getLast?_concat] at last
    exact absurd last (by decide)
  · cases member

theorem eq_of_headD {left right : List Text} (leftNamed : left ≠ [[]]) (rightNamed : right ≠ [[]])
    (head : left.headD [] = right.headD []) (tail : left.tail = right.tail) : left = right := by
  cases left with
  | nil =>
      cases right with
      | nil => rfl
      | cons name names => simp_all
  | cons name names =>
      cases right with
      | nil => simp_all
      | cons other others =>
          obtain rfl : name = other := head
          obtain rfl : names = others := tail
          rfl

theorem isUnique_of_opening {left right : Index} {leftRest rightRest : Text}
    (same : opening left ++ leftRest = opening right ++ rightRest) :
    left.isUnique = right.isUnique := by
  have list : utf8 "[" = [0x5B] := rfl
  have record : utf8 "\x7bfields: [" = 0x7B :: utf8 "fields: [" := rfl
  have bytes := congrArg List.head? same
  cases one : left.isUnique <;> cases two : right.isUnique
  · rfl
  · simp [opening, one, two, list, record] at bytes
  · simp [opening, one, two, list, record] at bytes
  · rfl

theorem indexes_of_pieces {left right : List Index}
    (leftClear : ∀ index ∈ left, Clear (closing index) index.fields ∧ index.fields ≠ [[]])
    (rightClear : ∀ index ∈ right, Clear (closing index) index.fields ∧ index.fields ≠ [[]])
    (same : left.flatMap pieces = right.flatMap pieces) : left = right := by
  induction left generalizing right with
  | nil =>
      cases right with
      | nil => rfl
      | cons index right => simp [pieces_ne_nil] at same
  | cons index left ih =>
      obtain ⟨other, right, rfl⟩ : ∃ other rest, right = other :: rest := by
        cases right with
        | nil => simp [pieces_ne_nil] at same
        | cons other right => exact ⟨other, right, rfl⟩
      rw [List.forall_mem_cons] at leftClear rightClear
      obtain ⟨first, rest, shape⟩ := List.exists_cons_of_ne_nil
        (closed_ne_nil (index.fields.headD []) index.fields.tail)
      obtain ⟨otherFirst, otherRest, otherShape⟩ := List.exists_cons_of_ne_nil
        (closed_ne_nil (other.fields.headD []) other.fields.tail)
      simp only [List.flatMap_cons, pieces, shape, otherShape, opened, List.cons_append,
        List.cons.injEq, List.append_assoc] at same
      have unique : index.isUnique = other.isUnique := isUnique_of_opening same.1
      have openings : opening index = opening other := by simp only [opening, unique]
      have closings : closing index = closing other := by simp only [closing, unique]
      have heads : first = otherFirst := by
        rw [openings] at same
        exact List.append_cancel_left same.1
      have lists : closed (index.fields.headD []) index.fields.tail ++
            (closing index ++ left.flatMap pieces) =
          closed (other.fields.headD []) other.fields.tail ++
            (closing index ++ right.flatMap pieces) := by
        rw [shape, otherShape, heads, List.cons_append, List.cons_append, same.2, closings]
      have otherClear : Clear (closing index) other.fields := closings ▸ rightClear.1.1
      obtain ⟨head, tail, behind⟩ := fields_of_closed (noEnd_closing index)
        (clear_headD leftClear.1.1) (clear_headD otherClear) (startsIndex_pieces left)
        (startsIndex_pieces right) lists
      have fields := eq_of_headD leftClear.1.2 rightClear.1.2 head tail
      have indexEq : index = other := by
        cases index
        cases other
        simp_all
      rw [indexEq, ih leftClear.2 rightClear.2 behind]

end Directives

end EntitySchema
