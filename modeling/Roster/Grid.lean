/-!
# Rectangular Tables

A grid is a table of `height` rows with `width` cells each, held as one vector in row
order. Either dimension may be zero, and the other is then still known: a grid of
three empty rows is not a grid of no rows.

## Main definitions

* `Grid`: A rectangular table.
* `Grid.get`: The cell in a row and a column.
* `Grid.get?`: The same for indices that may lie outside.
* `Grid.ofFn`: The table of a function.
* `Grid.findCell?`: The first cell in row order that has a property.
* `Grid.isHoldable`: Whether a table of some size is not too big.

## Theorems

* `Grid.get_ofFn`: The cells of the table of a function are its values.
-/

namespace Roster

/-- A table of `height` rows with `width` cells each, in row order. -/
structure Grid (α : Type) where
  height : Nat
  width : Nat
  cells : Vector α (height * width)

namespace Grid

variable {α β : Type}

/-- Whether a table with some dimensions is not too big: the bytes of its doubles can be
    counted in a signed word. A dimension of zero does not make the others harmless. -/
def isHoldable (dims : List Nat) : Bool :=
  decide (dims.foldl (fun bytes n => bytes * max n 1) 8 < 9223372036854775808)

/-- The position of a cell in row order. -/
def position {height width : Nat} (i : Fin height) (j : Fin width) : Fin (height * width) :=
  ⟨i.val * width + j.val, by
    calc i.val * width + j.val < i.val * width + width := Nat.add_lt_add_left j.isLt _
      _ = (i.val + 1) * width := (Nat.succ_mul _ _).symm
      _ ≤ height * width := Nat.mul_le_mul_right _ i.isLt⟩

/-- The cell in a row and a column. -/
def get (g : Grid α) (i : Fin g.height) (j : Fin g.width) : α := g.cells[position i j]

/-- The cell in a row and a column, if there is one. -/
def get? (g : Grid α) (i j : Nat) : Option α :=
  if h : i < g.height ∧ j < g.width then some (g.get ⟨i, h.1⟩ ⟨j, h.2⟩) else none

/-- The column of a position in row order, which exists when the position does. -/
theorem width_pos {height width : Nat} (k : Fin (height * width)) : 0 < width := by
  rcases Nat.eq_zero_or_pos width with h | h
  · exact absurd k.isLt (by simp [h])
  · exact h

/-- The table of a function of row and column. -/
def ofFn (height width : Nat) (f : Fin height → Fin width → α) : Grid α where
  height := height
  width := width
  cells := Vector.ofFn fun k =>
    f ⟨k.val / width, Nat.div_lt_of_lt_mul (Nat.mul_comm height width ▸ k.isLt)⟩
      ⟨k.val % width, Nat.mod_lt _ (width_pos k)⟩

theorem get_ofFn (height width : Nat) (f : Fin height → Fin width → α) (i : Fin height)
    (j : Fin width) : (ofFn height width f).get i j = f i j := by
  have hw : 0 < width := Nat.lt_of_le_of_lt (Nat.zero_le _) j.isLt
  have hdiv : (i.val * width + j.val) / width = i.val := by
    rw [Nat.mul_comm, Nat.mul_add_div hw, Nat.div_eq_of_lt j.isLt, Nat.add_zero]
  have hmod : (i.val * width + j.val) % width = j.val := by
    rw [Nat.mul_comm, Nat.mul_add_mod, Nat.mod_eq_of_lt j.isLt]
  have hrow : (⟨(i.val * width + j.val) / width, by rw [hdiv]; exact i.isLt⟩ : Fin height) = i :=
    Fin.ext hdiv
  have hcol : (⟨(i.val * width + j.val) % width, Nat.mod_lt _ hw⟩ : Fin width) = j :=
    Fin.ext hmod
  exact (Vector.getElem_ofFn (position i j).isLt).trans (congr (congrArg f hrow) hcol)

/-- Applies a function to every cell. -/
def map (f : α → β) (g : Grid α) : Grid β where
  height := g.height
  width := g.width
  cells := g.cells.map f

/-- The cells as one list in row order. -/
def toList (g : Grid α) : List α := g.cells.toList

/-- Whether the table has no cell. -/
def isEmpty (g : Grid α) : Bool := g.height * g.width == 0

/-- The number of cells. -/
def size (g : Grid α) : Nat := g.height * g.width

/-- The first cell in row order with a property: its row, its column and itself. -/
def findCell? (p : α → Bool) (g : Grid α) : Option (Nat × Nat × α) :=
  match g.cells.toList.findIdx? p with
  | none => none
  | some k => (g.cells[k]?).map fun x => (k / g.width, k % g.width, x)

/-- The table of a list of cells in row order, if their number fits. -/
def ofList? (height width : Nat) (cells : List α) : Option (Grid α) :=
  if h : cells.toArray.size = height * width then
    some { height := height, width := width, cells := ⟨cells.toArray, h⟩ }
  else none

end Grid

end Roster
