import EntitySchema.Yaml.Comment
import Mathlib.Data.List.TakeWhile

/-!
Moving over a stream. Fetching pieces does not change what is read as long as the stream is complete
and has no byte order mark in it, so a movement is told by the characters it goes over.
-/

namespace EntitySchema.Yaml

def byteOrderMark : Char := Char.ofNat 0xFEFF

namespace Source

/-- A place in a stream that is readable to its end and has no byte order mark. -/
structure Clean (source : Source) : Prop where
  isComplete : source.isComplete = true
  inside : source.isOverrun = false
  size_eq : source.size = source.index + source.rest.length
  unmarked : byteOrderMark ∉ source.rest
  opening : source.opening ≠ some byteOrderMark

structure Moves (source : Source) (chars : List Char) (target : Source) : Prop where
  rest : source.rest = chars ++ target.rest
  index : target.index = source.index + chars.length
  line : (∀ char ∈ chars, isBreak char = false) → target.line = source.line
  column : (∀ char ∈ chars, isBreak char = false) →
    target.column = source.column + chars.length
  clean : source.Clean → target.Clean

variable {source middle target : Source} {chars others : List Char}

theorem Moves.refl (source : Source) : source.Moves [] source :=
  ⟨rfl, rfl, fun _ => rfl, fun _ => rfl, id⟩

theorem Moves.trans (first : source.Moves chars middle) (second : middle.Moves others target) :
    source.Moves (chars ++ others) target where
  rest := by rw [first.rest, second.rest, List.append_assoc]
  index := by rw [second.index, first.index, List.length_append, Nat.add_assoc]
  line unbroken := by
    rw [List.forall_mem_append] at unbroken
    rw [second.line unbroken.2, first.line unbroken.1]
  column unbroken := by
    rw [List.forall_mem_append] at unbroken
    rw [second.column unbroken.2, first.column unbroken.1, List.length_append, Nat.add_assoc]
  clean clean := second.clean (first.clean clean)

theorem Moves.rest_eq (moves : source.Moves chars target) (ahead : source.rest = chars ++ others) :
    target.rest = others :=
  List.append_cancel_left (moves.rest.symm.trans ahead)

theorem Clean.remaining (clean : source.Clean) : source.remaining = source.rest.length := by
  rw [Source.remaining, clean.size_eq, Nat.add_sub_cancel_left]

theorem Clean.opensWithMark (clean : source.Clean) : source.opensWithMark = false := by
  have opening := clean.opening
  rw [Source.opensWithMark]
  cases start : source.opening with
  | none => rfl
  | some char =>
      rw [start] at opening
      simp only [Option.any_some, decide_eq_false_iff_not]
      intro code
      refine opening (congrArg some ?_)
      rw [← Char.ofNat_toNat char, code]
      rfl

theorem Moves.peek_ne {char : Char} (unmarked : char ∉ source.rest) :
    source.peek? ≠ some char := by
  intro found
  exact unmarked (List.mem_of_head? found)

theorem moves_want (source : Source) (count : Nat) : source.Moves [] (source.want count) := by
  unfold want
  split
  · exact .refl source
  · refine ⟨rfl, rfl, fun _ => rfl, fun _ => rfl, fun clean => ?_⟩
    refine ⟨clean.isComplete, ?_, clean.size_eq, clean.unmarked, Moves.peek_ne clean.unmarked⟩
    simp [clean.inside, clean.isComplete]

@[simp]
theorem want_rest (source : Source) (count : Nat) : (source.want count).rest = source.rest :=
  (moves_want source count).rest.symm

@[simp]
theorem want_column (source : Source) (count : Nat) :
    (source.want count).column = source.column :=
  (moves_want source count).column (by simp)

theorem moves_of_want {count : Nat} (moves : (source.want count).Moves chars target) :
    source.Moves chars target :=
  (moves_want source count).trans moves

theorem Clean.behind (clean : source.Clean) (chars : List Char)
    (ahead : source.rest = chars ++ target.rest)
    (index : target.index = source.index + chars.length) (size : target.size = source.size)
    (fetched : (target.isComplete, target.isOverrun, target.opening) =
      (source.isComplete, source.isOverrun, source.opening)) : target.Clean := by
  simp only [Prod.mk.injEq] at fetched
  refine ⟨fetched.1.trans clean.isComplete, fetched.2.1.trans clean.inside, ?_, ?_,
    fetched.2.2 ▸ clean.opening⟩
  · rw [size, clean.size_eq, ahead, index, List.length_append, Nat.add_assoc]
  · exact fun marked => clean.unmarked (ahead ▸ List.mem_append_right _ marked)

theorem moves_skip {char : Char} {rest : List Char} (ahead : source.rest = char :: rest) :
    source.Moves [char] source.skip := by
  simp only [skip, ahead]
  exact ⟨ahead, rfl, fun _ => rfl, fun _ => rfl, fun clean => clean.behind [char] ahead rfl rfl rfl⟩

theorem moves_skip_skip {first second : Char} {rest : List Char}
    (ahead : source.rest = first :: second :: rest) :
    source.Moves [first, second] source.skip.skip :=
  have moves := moves_skip ahead
  moves.trans (moves_skip (moves.rest_eq ahead))

theorem moves_skipMany {rest : List Char} (ahead : source.rest = chars ++ rest) :
    source.Moves chars (skipMany chars.length source) := by
  induction chars generalizing source with
  | nil => exact .refl source
  | cons char chars ih =>
      have first := moves_skip ahead
      exact first.trans (ih (first.rest_eq ahead))

theorem moves_pass (count : Nat) {rest : List Char} (ahead : source.rest = chars ++ rest) :
    source.Moves chars (pass count chars.length source) := by
  induction chars generalizing source with
  | nil => exact .refl source
  | cons char chars ih =>
      have first := (moves_skip ahead).trans (moves_want source.skip count)
      exact first.trans (ih (first.rest_eq ahead))

theorem moves_skipWhile {test : Char → Bool} {rest : List Char}
    (ahead : source.rest = chars ++ rest) (passes : ∀ char ∈ chars, test char = true)
    (stops : ∀ char ∈ rest.head?, test char = false) :
    source.Moves chars (source.skipWhile test) := by
  have ahead' : (source.want 1).rest = chars ++ rest := by rw [want_rest, ahead]
  have taken : (source.want 1).rest.takeWhile test = chars := by
    rw [ahead', List.takeWhile_append_of_pos passes]
    cases rest with
    | nil => simp
    | cons char rest => simp [stops char rfl]
  rw [skipWhile, taken]
  exact moves_of_want (moves_pass 1 ahead')

theorem moves_skipBreak {char : Char} {rest : List Char} (ahead : source.rest = char :: rest)
    (broken : isBreak char = true) :
    source.Moves [char] source.skipBreak ∨
      ∃ others, char = '\r' ∧ rest = '\n' :: others ∧
        source.Moves ['\r', '\n'] source.skipBreak := by
  have isAt : source.isAtBreak = true := by simp [isAtBreak, peek?, ahead, broken]
  have ahead' : (source.want 2).rest = char :: rest := by rw [want_rest, ahead]
  have line {chars : List Char} (member : char ∈ chars) {goal : Prop}
      (unbroken : ∀ other ∈ chars, isBreak other = false) : goal := by
    simp [unbroken char member] at broken
  rw [skipBreak, if_pos isAt]
  unfold skipLine
  split
  next others same =>
    obtain ⟨rfl, rfl⟩ := List.cons.inj (ahead'.symm.trans same)
    exact Or.inr ⟨others, rfl, rfl, moves_of_want ⟨ahead', rfl, line (by simp), line (by simp),
      fun clean => clean.behind ['\r', '\n'] ahead' rfl rfl rfl⟩⟩
  next same =>
    obtain ⟨rfl, rfl⟩ := List.cons.inj (ahead'.symm.trans same)
    exact Or.inl (moves_of_want ⟨ahead', rfl, line (by simp), line (by simp),
      fun clean => clean.behind [char] ahead' rfl rfl rfl⟩)
  next same => simp [ahead] at same

theorem getElem?_takeWhile_length {α : Type} (test : α → Bool) (list : List α) :
    list[(list.takeWhile test).length]? = (list.dropWhile test).head? := by
  induction list with
  | nil => rfl
  | cons first list ih => by_cases passes : test first = true <;> simp [passes, ih]

theorem moves_skipLineComment (clear : (source.rest.dropWhile isBlank).head? ≠ some '#') :
    source.Moves [] source.skipLineComment := by
  unfold skipLineComment
  generalize reached : ((source.rest.take commentReach).takeWhile isBlank).length = blanks
  have wanted := moves_want source (min (blanks + 1) commentReach)
  dsimp only
  rw [if_neg]
  · exact wanted
  · rw [Bool.and_eq_true, decide_eq_true_eq, beq_iff_eq]
    rintro ⟨near, found⟩
    have all : (source.rest.takeWhile isBlank).length = blanks := by
      rw [← List.take_takeWhile, List.length_take] at reached
      omega
    rw [peekAt?, want_rest, ← all, getElem?_takeWhile_length] at found
    exact clear found

end Source

end EntitySchema.Yaml
