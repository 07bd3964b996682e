import EntitySchema.Text.Basic
import Mathlib.Data.List.Basic

/-!
The bytewise order of texts is the lexicographic order of their bytes.
-/

namespace EntitySchema.Text

theorem compare_eq (left right : Text) :
    Text.compare left right = compareOfLessAndEq left right := by
  induction left generalizing right with
  | nil => cases right <;> simp [Text.compare, compareOfLessAndEq]
  | cons byte left ih =>
      cases right with
      | nil => simp [Text.compare, compareOfLessAndEq]
      | cons other right =>
          simp only [Text.compare, compareOfLessAndEq, List.cons_lt_cons_iff, List.cons.injEq, ih]
          grind

theorem le_iff {left right : Text} : Text.le left right = true ↔ left ≤ right := by
  simp only [le, compare_eq, compareOfLessAndEq, bne_iff_ne, ne_eq]
  grind

theorem le_trans (first second third : Text) (lower : le first second = true)
    (upper : le second third = true) : le first third = true :=
  le_iff.mpr (List.le_trans (le_iff.mp lower) (le_iff.mp upper))

theorem le_total (left right : Text) : (le left right || le right left) = true := by
  rw [Bool.or_eq_true, le_iff, le_iff]
  exact List.le_total left right

end EntitySchema.Text
