import EntitySchema.DefaultValue
import Mathlib.Tactic.SplitIfs

/-!
Computations that may crash. Each access to an item of a list says what happens when the item is
not there, and so does each branch that is never to be taken; a computation is safe when it ends
as one that has no such accesses.
-/

namespace EntitySchema

/-- Why a computation stops: its caller is told of an error, or it crashes. -/
inductive Stop (ε : Type) where
  | refused (error : ε)
  | outOfRange
  | unreachable

abbrev Checked (ε α : Type) := Except (Stop ε) α

namespace Checked

variable {ε δ α β : Type}

def refuse (error : ε) : Checked ε α := .error (.refused error)

def item (list : List α) (index : Nat) : Checked ε α :=
  match list[index]? with
  | some value => .ok value
  | none => .error .outOfRange

def slice (list : List α) (low high : Nat) : Checked ε (List α) :=
  if low ≤ high ∧ high ≤ list.length then .ok ((list.take high).drop low) else .error .outOfRange

def ofExcept : Except ε α → Checked ε α
  | .ok value => .ok value
  | .error error => refuse error

def mapError (transform : ε → δ) : Checked ε α → Checked δ α
  | .ok value => .ok value
  | .error (.refused error) => refuse (transform error)
  | .error .outOfRange => .error .outOfRange
  | .error .unreachable => .error .unreachable

@[simp]
theorem ofExcept_ok (value : α) : ofExcept (.ok value : Except ε α) = .ok value := rfl

@[simp]
theorem ofExcept_error (error : ε) : ofExcept (.error error : Except ε α) = refuse error := rfl

@[simp]
theorem ok_bind (value : α) (next : α → Checked ε β) : (.ok value : Checked ε α) >>= next =
    next value := rfl

@[simp]
theorem refuse_bind (error : ε) (next : α → Checked ε β) : refuse error >>= next =
    refuse error := rfl

theorem item_of_getElem? {list : List α} {index : Nat} {value : α}
    (found : list[index]? = some value) : (item list index : Checked ε α) = .ok value := by
  rw [item, found]

theorem item_of_lt {list : List α} {index : Nat} (bound : index < list.length) :
    (item list index : Checked ε α) = .ok list[index] :=
  item_of_getElem? (List.getElem?_eq_getElem bound)

end Checked

end EntitySchema
