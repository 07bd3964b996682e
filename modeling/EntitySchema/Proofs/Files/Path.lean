import EntitySchema.Loader
import Mathlib.Data.List.TakeWhile

/-!
The last name of a path. Unless it is empty, `.` or `..`, it stays the last name when the path is
cleaned or made absolute, and so does the format that its extension shows.
-/

namespace EntitySchema

theorem Text.splitOn_ne_nil (separator : Byte) (text : Text) : splitOn separator text ≠ [] := by
  cases text with
  | nil => simp [splitOn]
  | cons byte text =>
      rw [splitOn]
      split
      · simp
      · split <;> simp

theorem Text.splitOn_append (separator : Byte) (left right : Text) :
    splitOn separator (left ++ separator :: right) =
      splitOn separator left ++ splitOn separator right := by
  induction left with
  | nil => simp [splitOn]
  | cons byte left ih =>
      obtain ⟨part, parts, shape⟩ := List.exists_cons_of_ne_nil (splitOn_ne_nil separator left)
      simp only [List.cons_append, splitOn, ih, shape]
      split <;> simp

theorem Text.splitOn_of_notMem {separator : Byte} {text : Text} (absent : separator ∉ text) :
    splitOn separator text = [text] := by
  induction text with
  | nil => rfl
  | cons byte text ih =>
      simp only [List.mem_cons, not_or] at absent
      simp [splitOn, ih absent.2, Ne.symm absent.1]

namespace Path

def EndsIn (path name : Text) : Prop := path = name ∨ ∃ above, path = above ++ slash :: name

theorem EndsIn.append {path name : Text} (ends : EndsIn path name) (front : Text) :
    EndsIn (front ++ slash :: path) name := by
  obtain rfl | ⟨above, rfl⟩ := ends
  · exact Or.inr ⟨front, rfl⟩
  · exact Or.inr ⟨front ++ slash :: above, by simp⟩

theorem slash_notMem_baseName (path : Text) : slash ∉ baseName path := by
  intro member
  have passed := List.mem_takeWhile_imp (List.mem_reverse.mp member)
  simp at passed

theorem endsIn_baseName (path : Text) : EndsIn path (baseName path) := by
  have whole := List.takeWhile_append_dropWhile (p := fun byte => decide (byte ≠ slash))
    (l := path.reverse)
  cases shape : path.reverse.dropWhile fun byte => decide (byte ≠ slash) with
  | nil =>
      rw [shape, List.append_nil] at whole
      left
      rw [baseName, whole, List.reverse_reverse]
  | cons byte rest =>
      have stopped := List.head?_dropWhile_not (fun byte => decide (byte ≠ slash)) path.reverse
      rw [shape] at stopped whole
      have isSlash : byte = slash := by simpa using stopped
      right
      refine ⟨rest.reverse, ?_⟩
      have turned := congrArg List.reverse whole
      rw [List.reverse_append, List.reverse_reverse, List.reverse_cons, isSlash] at turned
      simpa [baseName] using turned.symm

theorem EndsIn.baseName_eq {path name : Text} (ends : EndsIn path name) (plain : slash ∉ name) :
    baseName path = name := by
  have passes : ∀ byte ∈ name.reverse, decide (byte ≠ slash) = true := by
    intro byte member
    simpa using ne_of_mem_of_not_mem (List.mem_reverse.mp member) plain
  obtain rfl | ⟨above, rfl⟩ := ends
  · rw [baseName, List.takeWhile_eq_self_iff.mpr passes, List.reverse_reverse]
  · rw [baseName, List.reverse_append, List.reverse_cons, List.append_assoc,
      List.takeWhile_append_of_pos passes]
    simp

theorem endsIn_join (front : List Text) (name : Text) :
    EndsIn (Text.join [slash] (front ++ [name])) name := by
  induction front with
  | nil => exact Or.inl rfl
  | cons part front ih =>
      obtain ⟨second, rest, shape⟩ : ∃ second rest, front ++ [name] = second :: rest :=
        List.exists_cons_of_ne_nil (by simp)
      rw [shape] at ih
      rw [List.cons_append, shape, Text.join]
      · simpa using ih.append part
      · simp

theorem parts_of_endsIn {path name : Text} (ends : EndsIn path name) (plain : slash ∉ name) :
    ∃ front, parts path = front ++ [name] := by
  obtain rfl | ⟨above, rfl⟩ := ends
  · exact ⟨[], Text.splitOn_of_notMem plain⟩
  · refine ⟨Text.splitOn slash above, ?_⟩
    rw [parts, Text.splitOn_append, Text.splitOn_of_notMem plain]

/-- A name that stands for itself, and not for a place that is found by cleaning the path. -/
def IsProper (name : Text) : Prop := name ≠ [] ∧ name ≠ current ∧ name ≠ parent

theorem baseName_clean {path : Text} (proper : IsProper (baseName path)) :
    baseName (clean path) = baseName path := by
  have plain := slash_notMem_baseName path
  obtain ⟨front, shape⟩ := parts_of_endsIn (endsIn_baseName path) plain
  -- A proper last part is put behind whatever the parts before it came to.
  obtain ⟨kept, simple⟩ : ∃ kept, simplify path = kept ++ [baseName path] := by
    refine ⟨(front.foldl (addPart (isAbsolute path)) []).reverse, ?_⟩
    simp [simplify, shape, addPart, proper.1, proper.2.1, proper.2.2]
  have joined := endsIn_join kept (baseName path)
  have cleaned : EndsIn (clean path) (baseName path) := by
    rw [clean, simple]
    split
    · exact joined.append []
    · split
      next empty => simp at empty
      next => exact joined
  exact cleaned.baseName_eq plain

theorem baseName_absolute {directory path : Text} (rooted : directory ≠ [])
    (proper : IsProper (baseName path)) :
    baseName (absolute directory (clean path)) = baseName path := by
  have cleaned := baseName_clean proper
  unfold absolute
  split
  · rw [baseName_clean (cleaned ▸ proper), cleaned]
  · have ends : EndsIn (directory ++ slash :: clean path) (baseName path) :=
      (cleaned ▸ endsIn_baseName (clean path)).append directory
    have same := ends.baseName_eq (slash_notMem_baseName path)
    rw [join, if_neg (by simpa using rooted), List.append_assoc, List.singleton_append,
      baseName_clean (same ▸ proper), same]

end Path

namespace FileFormat

theorem ofPath_congr {left right : Text} (same : Path.baseName left = Path.baseName right) :
    ofPath left = ofPath right := by
  rw [ofPath, ofPath, Path.extension, Path.extension, same]

theorem isProper_of_ofPath {path : Text} {format : FileFormat} (known : ofPath path = .ok format) :
    Path.IsProper (Path.baseName path) := by
  have none : ∀ name ∈ [[], Path.current, Path.parent],
      Path.baseName name = name ∧ (ofPath name).isOk = false := by decide
  have other : Path.baseName path ∉ [[], Path.current, Path.parent] := by
    intro member
    obtain ⟨whole, unknown⟩ := none _ member
    rw [ofPath_congr whole, known] at unknown
    simp [Except.isOk, Except.toBool] at unknown
  simpa [Path.IsProper] using other

theorem ofPath_absolute {directory path : Text} {format : FileFormat} (rooted : directory ≠ [])
    (known : ofPath path = .ok format) :
    ofPath (Path.absolute directory (Path.clean path)) = .ok format := by
  rw [ofPath_congr (Path.baseName_absolute rooted (isProper_of_ofPath known)), known]

end FileFormat

end EntitySchema
