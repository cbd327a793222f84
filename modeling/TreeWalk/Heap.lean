/-
# Heaps

A heap is a growing sequence of cells.  Cells are added at the end and changed in place, and none
is ever taken away, so a place stays good for ever.  The laws below say what each operation does
to the cell at every place; reading a place outside the heap gives the default cell.
-/
namespace TreeWalk

/-- A growing sequence of cells. -/
structure Heap (α : Type) where
  /-- The cells, oldest first. -/
  cells : Array α

namespace Heap

variable {α : Type}

/-- The heap without cells. -/
def empty : Heap α := ⟨#[]⟩

instance : Inhabited (Heap α) := ⟨empty⟩

/-- The number of cells, which is also the place of the next one. -/
def size (h : Heap α) : Nat := h.cells.size

/-- The cell at a place. -/
def get [Inhabited α] (h : Heap α) (i : Nat) : α := h.cells.getD i default

/-- The heap with one more cell. -/
def push (h : Heap α) (a : α) : Heap α := ⟨h.cells.push a⟩

/-- The heap with the cell at a place changed. -/
def modify (h : Heap α) (i : Nat) (f : α → α) : Heap α := ⟨h.cells.modify i f⟩

@[simp] theorem size_push (h : Heap α) (a : α) : (h.push a).size = h.size + 1 := by
  simp [size, push]

@[simp] theorem size_modify (h : Heap α) (i : Nat) (f : α → α) :
    (h.modify i f).size = h.size := by
  simp [size, modify]

theorem get_of_size_le [Inhabited α] {h : Heap α} {i : Nat} (hi : h.size ≤ i) :
    h.get i = default := by
  simp [get, Array.getD_eq_getD_getElem?, Array.getElem?_eq_none hi]

theorem get_push [Inhabited α] (h : Heap α) (a : α) (i : Nat) :
    (h.push a).get i = if i = h.size then a else h.get i := by
  simp only [get, push, size, Array.getD_eq_getD_getElem?, Array.getElem?_push]
  split <;> rfl

theorem get_modify [Inhabited α] (h : Heap α) (i j : Nat) (f : α → α) :
    (h.modify i f).get j = if i = j ∧ j < h.size then f (h.get j) else h.get j := by
  by_cases hj : j < h.size
  · have hj' : j < h.cells.size := hj
    simp only [get, modify, Array.getD_eq_getD_getElem?, Array.getElem?_modify]
    by_cases hij : i = j <;> simp [hij, hj, hj']
  · have hn : h.size ≤ j := Nat.le_of_not_lt hj
    rw [get_of_size_le (by simpa using hn), get_of_size_le hn]
    simp [hj]

/-- To change the newest cell is to put another one there. -/
theorem modify_push (h : Heap α) (a : α) (f : α → α) :
    (h.push a).modify h.size f = h.push (f a) := by
  have hcells : (h.cells.push a).modify h.cells.size f = h.cells.push (f a) := by
    ext i hi hi'
    · simp
    · simp only [Array.getElem_modify, Array.getElem_push]
      grind
  simp only [modify, push, size, hcells]

end Heap

end TreeWalk
