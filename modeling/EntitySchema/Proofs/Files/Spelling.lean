import EntitySchema.Proofs.Files.Path

/-!
Which clean paths denote the same place. A simplified path goes up some directories and then down
through names; two clean paths that go up equally far, or are both absolute, denote the same place
only if they are the same text.
-/

namespace EntitySchema

namespace Text

variable {separator : Byte}

theorem notMem_of_mem_splitOn {text part : Text} (member : part ∈ splitOn separator text) :
    separator ∉ part := by
  induction text generalizing part with
  | nil => simp_all [splitOn]
  | cons byte text ih =>
      obtain ⟨first, others, shape⟩ := List.exists_cons_of_ne_nil (splitOn_ne_nil separator text)
      simp only [splitOn, shape] at member
      rw [shape, List.forall_mem_cons] at ih
      split at member
      · rcases List.mem_cons.mp member with rfl | member
        · exact List.not_mem_nil
        · rcases List.mem_cons.mp member with rfl | member
          · exact ih.1
          · exact ih.2 part member
      next other =>
        rcases List.mem_cons.mp member with rfl | member
        · exact List.not_mem_cons_of_ne_of_not_mem (Ne.symm other) ih.1
        · exact ih.2 part member

theorem splitOn_join {parts : List Text} (nonempty : parts ≠ [])
    (plain : ∀ part ∈ parts, separator ∉ part) :
    splitOn separator (join [separator] parts) = parts := by
  induction parts with
  | nil => contradiction
  | cons part parts ih =>
      rw [List.forall_mem_cons] at plain
      cases parts with
      | nil => exact splitOn_of_notMem plain.1
      | cons next parts =>
          have rest := ih (List.cons_ne_nil _ _) plain.2
          have joined : join [separator] (part :: next :: parts) =
              part ++ separator :: join [separator] (next :: parts) := by
            simp [join]
          rw [joined, splitOn_append, splitOn_of_notMem plain.1, rest, List.singleton_append]

end Text

namespace Path

def IsName (name : Text) : Prop := IsProper name ∧ slash ∉ name

theorem slash_notMem_of_mem_parts {path part : Text} (member : part ∈ parts path) :
    slash ∉ part :=
  Text.notMem_of_mem_splitOn member

/-- Simplified parts, the last one first: names, and below them the steps up, if there are any. -/
def IsStack (rooted : Bool) (done : List Text) : Prop :=
  ∃ names count, done = names ++ List.replicate count parent ∧ (∀ name ∈ names, IsName name) ∧
    (rooted = true → count = 0)

variable {rooted : Bool} {done steps : List Text} {part path directory left right : Text}

theorem IsStack.addPart (stack : IsStack rooted done) (plain : slash ∉ part) :
    IsStack rooted (addPart rooted done part) := by
  obtain ⟨names, count, rfl, proper, top⟩ := stack
  unfold Path.addPart
  split
  · exact ⟨names, count, rfl, proper, top⟩
  next noStay =>
    split
    next isParent =>
      cases names with
      | nil =>
          cases count with
          | zero =>
              cases rooted with
              | true => exact ⟨[], 0, rfl, proper, fun _ => rfl⟩
              | false => exact ⟨[], 1, rfl, proper, fun isRooted => nomatch isRooted⟩
          | succ count =>
              refine ⟨[], count + 2, ?_, proper, fun isRooted => nomatch top isRooted⟩
              simp [List.replicate_succ]
      | cons last names =>
          rw [List.forall_mem_cons] at proper
          simp only [List.cons_append, proper.1.1.2.2, if_false]
          exact ⟨names, count, rfl, proper.2, top⟩
    next notParent =>
      simp only [Bool.or_eq_true, List.isEmpty_iff, decide_eq_true_eq, not_or] at noStay
      have own : IsName part := ⟨⟨noStay.1, noStay.2, notParent⟩, plain⟩
      exact ⟨part :: names, count, rfl, List.forall_mem_cons.mpr ⟨own, proper⟩, top⟩

theorem IsStack.foldl (stack : IsStack rooted done) (plain : ∀ part ∈ steps, slash ∉ part) :
    IsStack rooted (steps.foldl (Path.addPart rooted) done) := by
  induction steps generalizing done with
  | nil => exact stack
  | cons part steps ih =>
      rw [List.forall_mem_cons] at plain
      exact ih (stack.addPart plain.1) plain.2

theorem simplify_shape (path : Text) : ∃ count names,
    simplify path = List.replicate count parent ++ names ∧ (∀ name ∈ names, IsName name) ∧
      (isAbsolute path = true → count = 0) := by
  have start : IsStack (isAbsolute path) [] := ⟨[], 0, rfl, by simp, fun _ => rfl⟩
  obtain ⟨names, count, same, proper, top⟩ :=
    start.foldl fun part (member : part ∈ parts path) => slash_notMem_of_mem_parts member
  refine ⟨count, names.reverse, ?_, fun name member => proper name (List.mem_reverse.mp member),
    top⟩
  rw [simplify, same, List.reverse_append, List.reverse_replicate]

theorem foldl_names {names : List Text} (proper : ∀ name ∈ names, IsName name)
    (rooted : Bool) (done : List Text) :
    names.foldl (addPart rooted) done = names.reverse ++ done := by
  induction names generalizing done with
  | nil => rfl
  | cons name names ih =>
      rw [List.forall_mem_cons] at proper
      have added : addPart rooted done name = name :: done := by
        simp [addPart, proper.1.1.1, proper.1.1.2.1, proper.1.1.2.2]
      rw [List.foldl_cons, added, ih proper.2, List.reverse_cons, List.append_assoc,
        List.singleton_append]

theorem foldl_up (count : Nat) :
    (List.replicate count parent).foldl (addPart false) [] = List.replicate count parent := by
  induction count with
  | zero => rfl
  | succ count ih =>
      rw [List.replicate_succ', List.foldl_append, ih, ← List.replicate_succ']
      cases count with
      | zero => rfl
      | succ count => rfl

theorem foldl_simplify (path : Text) :
    (simplify path).foldl (addPart (isAbsolute path)) [] = (simplify path).reverse := by
  obtain ⟨count, names, shape, proper, top⟩ := simplify_shape path
  rw [shape, List.foldl_append, foldl_names proper, List.reverse_append, List.reverse_replicate]
  cases rooted : isAbsolute path with
  | true => rw [top rooted, List.replicate_zero, List.foldl_nil]
  | false => rw [foldl_up]

theorem mem_simplify_plain (member : part ∈ simplify path) : part ≠ [] ∧ slash ∉ part := by
  obtain ⟨count, names, shape, proper, _⟩ := simplify_shape path
  rw [shape] at member
  rcases List.mem_append.mp member with up | named
  · rw [List.eq_of_mem_replicate up]
    decide
  · exact ⟨(proper part named).1.1, (proper part named).2⟩

theorem parts_join (nonempty : simplify path ≠ []) :
    parts (Text.join [slash] (simplify path)) = simplify path :=
  Text.splitOn_join nonempty fun _ member => (mem_simplify_plain member).2

theorem isAbsolute_join (nonempty : simplify path ≠ []) :
    isAbsolute (Text.join [slash] (simplify path)) = false := by
  obtain ⟨first, others, shape⟩ := List.exists_cons_of_ne_nil nonempty
  have plain := mem_simplify_plain (shape ▸ List.mem_cons_self : first ∈ simplify path)
  obtain ⟨byte, rest, spelled⟩ := List.exists_cons_of_ne_nil plain.1
  have other : byte ≠ slash := fun same => plain.2 (by simp [spelled, same])
  rw [shape, spelled]
  cases others <;> simp [Text.join, isAbsolute, other]

theorem clean_of_absolute (rooted : isAbsolute path = true) :
    clean path = ofParts (simplify path) := by
  rw [clean, if_pos rooted]

theorem clean_of_relative (relative : isAbsolute path = false) :
    clean path = if simplify path = [] then current else Text.join [slash] (simplify path) := by
  rw [clean, if_neg (by simp [relative])]
  split
  next empty => rw [if_pos empty]
  next other => rw [if_neg other]

@[simp]
theorem isAbsolute_clean (path : Text) : isAbsolute (clean path) = isAbsolute path := by
  cases rooted : isAbsolute path with
  | true =>
      rw [clean_of_absolute rooted]
      rfl
  | false =>
      rw [clean_of_relative rooted]
      split
      · rfl
      next nonempty => exact isAbsolute_join nonempty

theorem foldl_parts_clean (rooted : Bool) (done : List Text) :
    (parts (clean path)).foldl (addPart rooted) done =
      (simplify path).foldl (addPart rooted) done := by
  have skips : addPart rooted done [] = done := rfl
  cases isRooted : isAbsolute path with
  | true =>
      have whole : clean path = [] ++ slash :: Text.join [slash] (simplify path) := by
        rw [clean_of_absolute isRooted]
        rfl
      rw [whole, parts, Text.splitOn_append, List.foldl_append]
      by_cases empty : simplify path = []
      · rw [empty]
        rfl
      · have joined := parts_join empty
        rw [parts] at joined
        rw [joined]
        rfl
  | false =>
      rw [clean_of_relative isRooted]
      split
      next empty =>
        rw [empty]
        rfl
      next nonempty => rw [parts_join nonempty]

@[simp]
theorem simplify_clean (path : Text) : simplify (clean path) = simplify path := by
  rw [simplify, isAbsolute_clean, foldl_parts_clean, foldl_simplify, List.reverse_reverse]

theorem clean_congr (start : isAbsolute left = isAbsolute right)
    (same : simplify left = simplify right) : clean left = clean right := by
  rw [clean, clean, start, same]

theorem clean_clean (path : Text) : clean (clean path) = clean path :=
  clean_congr (isAbsolute_clean path) (simplify_clean path)

theorem isAbsolute_append (nonempty : directory ≠ []) (path : Text) :
    isAbsolute (directory ++ path) = isAbsolute directory := by
  obtain ⟨byte, rest, rfl⟩ := List.exists_cons_of_ne_nil nonempty
  rfl

theorem simplify_append (nonempty : directory ≠ []) (path : Text) :
    simplify (directory ++ slash :: path) =
      ((parts path).foldl (addPart (isAbsolute directory))
        (simplify directory).reverse).reverse := by
  rw [simplify, isAbsolute_append nonempty, parts, Text.splitOn_append, List.foldl_append,
    simplify, List.reverse_reverse]
  rfl

theorem join_eq (nonempty : directory ≠ []) (path : Text) :
    join directory path = clean (directory ++ slash :: path) := by
  rw [join, if_neg (by simpa using nonempty), List.append_assoc, List.singleton_append]

def IsBelow (directory path : Text) : Prop :=
  ∃ names, names ≠ [] ∧ (∀ name ∈ names, IsName name) ∧
    path = join directory (Text.join [slash] names)

theorem IsBelow.isAbsolute_eq (nonempty : directory ≠ []) (below : IsBelow directory path) :
    isAbsolute path = isAbsolute directory := by
  obtain ⟨names, _, _, rfl⟩ := below
  rw [join_eq nonempty, isAbsolute_clean, isAbsolute_append nonempty]

theorem IsBelow.clean_eq (nonempty : directory ≠ []) (below : IsBelow directory path) :
    clean path = path := by
  obtain ⟨names, _, _, rfl⟩ := below
  rw [join_eq nonempty, clean_clean]

theorem simplify_join_names (nonempty : directory ≠ []) {names : List Text} (given : names ≠ [])
    (proper : ∀ name ∈ names, IsName name) :
    simplify (join directory (Text.join [slash] names)) = simplify directory ++ names := by
  have split : parts (Text.join [slash] names) = names :=
    Text.splitOn_join given fun name member => (proper name member).2
  rw [join_eq nonempty, simplify_clean, simplify_append nonempty, split, foldl_names proper,
    List.reverse_append, List.reverse_reverse, List.reverse_reverse]

theorem clean_ne_nil (path : Text) : clean path ≠ [] := by
  cases rooted : isAbsolute path with
  | true =>
      rw [clean_of_absolute rooted]
      exact List.cons_ne_nil _ _
  | false =>
      rw [clean_of_relative rooted]
      split
      · decide
      next nonempty =>
        intro empty
        have joined := parts_join nonempty
        rw [empty, parts, Text.splitOn] at joined
        exact (mem_simplify_plain (joined ▸ List.mem_singleton_self [] : [] ∈ simplify path)).1 rfl

theorem isBelow_join {name : Text} (proper : IsName name) :
    IsBelow directory (join directory name) :=
  ⟨[name], List.cons_ne_nil _ _, List.forall_mem_singleton.mpr proper, rfl⟩

theorem IsBelow.trans {file : Text} (nonempty : directory ≠ []) (below : IsBelow directory path)
    (deeper : IsBelow path file) : IsBelow directory file := by
  have between : path ≠ [] := below.clean_eq nonempty ▸ clean_ne_nil path
  have start := (deeper.isAbsolute_eq between).trans (below.isAbsolute_eq nonempty)
  have spelled := deeper.clean_eq between
  obtain ⟨names, given, proper, rfl⟩ := below
  obtain ⟨others, givenOthers, properOthers, rfl⟩ := deeper
  have together : names ++ others ≠ [] := by simp [given]
  have properAll := List.forall_mem_append.mpr ⟨proper, properOthers⟩
  have whole : IsBelow directory (join directory (Text.join [slash] (names ++ others))) :=
    ⟨names ++ others, together, properAll, rfl⟩
  have same : clean (join (join directory (Text.join [slash] names)) (Text.join [slash] others)) =
      clean (join directory (Text.join [slash] (names ++ others))) := by
    apply clean_congr
    · rw [start, whole.isAbsolute_eq nonempty]
    · rw [simplify_join_names between givenOthers properOthers,
        simplify_join_names nonempty given proper,
        simplify_join_names nonempty together properAll, List.append_assoc]
  rw [spelled, whole.clean_eq nonempty] at same
  exact same ▸ whole

/-- How many directories a relative path goes up before it goes down; none of an absolute one. -/
def base? (path : Text) : Option Nat :=
  if isAbsolute path then none
  else some ((simplify path).takeWhile fun part => part = parent).length

theorem takeWhile_up {count : Nat} {names : List Text} (proper : ∀ name ∈ names, IsName name) :
    (List.replicate count parent ++ names).takeWhile (fun part => part = parent) =
      List.replicate count parent := by
  rw [List.takeWhile_append_of_pos (by simp)]
  cases names with
  | nil => simp
  | cons name names =>
      have other := (List.forall_mem_cons.mp proper).1.1.2.2
      simp [other]

theorem IsBelow.base?_eq (nonempty : directory ≠ []) (below : IsBelow directory path) :
    base? path = base? directory := by
  have start := below.isAbsolute_eq nonempty
  obtain ⟨names, given, proper, rfl⟩ := below
  obtain ⟨count, front, shape, properFront, _⟩ := simplify_shape directory
  rw [base?, base?, start, simplify_join_names nonempty given proper, shape, List.append_assoc,
    takeWhile_up (List.forall_mem_append.mpr ⟨properFront, proper⟩), takeWhile_up properFront]

theorem simplify_absolute (rooted : isAbsolute directory = true)
    (relative : isAbsolute path = false) :
    simplify (absolute directory (clean path)) =
      ((simplify path).foldl (addPart true) (simplify directory).reverse).reverse := by
  have nonempty : directory ≠ [] := by
    rintro rfl
    contradiction
  rw [absolute, if_neg (by simp [relative]), join_eq nonempty, simplify_clean,
    simplify_append nonempty, rooted, foldl_parts_clean]

theorem clean_eq_of_absolute_eq (rooted : isAbsolute directory = true)
    (start : base? left = base? right)
    (same : absolute directory (clean left) = absolute directory (clean right)) :
    clean left = clean right := by
  unfold base? at start
  cases isLeft : isAbsolute left with
  | true =>
      cases isRight : isAbsolute right with
      | true =>
          rwa [absolute, absolute, if_pos (by simpa using isLeft), if_pos (by simpa using isRight),
            clean_clean, clean_clean] at same
      | false => simp [isLeft, isRight] at start
  | false =>
      cases isRight : isAbsolute right with
      | true => simp [isLeft, isRight] at start
      | false =>
          apply clean_congr (isLeft.trans isRight.symm)
          have places := congrArg simplify same
          rw [simplify_absolute rooted isLeft, simplify_absolute rooted isRight] at places
          obtain ⟨count, names, shape, proper, _⟩ := simplify_shape left
          obtain ⟨count', names', shape', proper', _⟩ := simplify_shape right
          -- The steps up lead to one directory, so the names behind them are the same.
          simp only [isLeft, isRight, shape, shape', takeWhile_up proper, takeWhile_up proper',
            List.length_replicate, Bool.false_eq_true, if_false, Option.some.injEq] at start
          rw [shape, shape', start, List.foldl_append, List.foldl_append, foldl_names proper,
            foldl_names proper'] at places
          have behind := List.append_cancel_right (List.reverse_inj.mp places)
          rw [shape, shape', start, List.reverse_inj.mp behind]

end Path

end EntitySchema
