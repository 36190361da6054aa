/-!
# Numbered cells

`Cells α` holds a value of type `α` in some of the cells numbered `0` to `255`.  It is a list of
the filled cells, and `put` keeps the numbers ascending, so that the list is also the order in
which the cells are reported.

`find?_put` is the only fact that a user of cells needs.  It holds of every list, ascending or not:
`put` stops at the first cell that is not below its own, and `find?` at the first that is its own.
-/

set_option autoImplicit false

namespace RoomScript

/-- The filled cells, with their numbers. -/
abbrev Cells (α : Type) := List (UInt8 × α)

namespace Cells

variable {α : Type}

/-- The content of cell `k`. -/
def find? (cells : Cells α) (k : UInt8) : Option α :=
  match cells with
  | [] => none
  | (j, x) :: rest => if j = k then some x else find? rest k

/-- Fills cell `k`. -/
def put (cells : Cells α) (k : UInt8) (x : α) : Cells α :=
  match cells with
  | [] => [(k, x)]
  | (j, y) :: rest =>
    if k < j then (k, x) :: (j, y) :: rest
    else if j = k then (k, x) :: rest
    else (j, y) :: put rest k x

@[simp]
theorem find?_nil (k : UInt8) : find? ([] : Cells α) k = none := rfl

/-- Filling a cell changes that cell and no other. -/
theorem find?_put (cells : Cells α) (k : UInt8) (x : α) (j : UInt8) :
    find? (put cells k x) j = if k = j then some x else find? cells j := by
  induction cells with
  | nil => simp [put, find?]
  | cons head rest ih =>
    obtain ⟨i, y⟩ := head
    unfold put
    split
    · simp [find?]
    · split
      · next h =>
        subst h
        by_cases hj : i = j <;> simp [find?, hj]
      · next h =>
        by_cases hj : i = j
        · subst hj
          simp [find?, Ne.symm h]
        · simp [find?, hj, ih]

end Cells
end RoomScript
