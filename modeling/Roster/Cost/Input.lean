import Roster.Cost.Tensor
import Roster.Grid

/-!
# Costs as Given

Costs come as an array of doubles or as a sequence of rows. A sequence of rows may be
any data that can be walked: a text counts as the sequence of its characters and a
mapping as the sequence of its keys. All rows need one length, and the entries are
then read as doubles.

An input without any entry has lost at least one of its dimensions. If the caller
declares a dimension of zero, the declared size settles the shape; otherwise the shape
is the one that is seen.

## Main definitions

* `CostInput`: Costs as an array or as rows.
* `CostInput.toGrid`: The rectangular table of an input.
-/

namespace Roster

/-- Costs in the form in which they are given. -/
inductive CostInput where
  | array (tensor : Tensor)
  | rows (data : Datum)

namespace CostInput

/-- The different lengths among some rows, in increasing order. -/
def distinctWidths (rows : List (List Datum)) : List Nat :=
  (rows.map List.length).eraseDups.mergeSort (fun a b => decide (a ≤ b))

/-- The items of each row. -/
def splitRows (data : Datum) : Except Fault (List (List Datum)) :=
  match data.items? with
  | none => .error .wrongKind
  | some found => found.mapM fun row =>
    match row.items? with
    | none => .error .wrongKind
    | some cells => .ok cells

/-- A table without entries of the declared size, of which one dimension is zero. -/
def declaredGrid (n m : Int) : Except Fault (Grid Float) :=
  if n < 0 ∨ m < 0 ∨ !Grid.isHoldable [n.toNat, m.toNat] then .error .badValue
  else
    match Grid.ofList? n.toNat m.toNat [] with
    | some g => .ok g
    | none => .error .badValue

/-- The array of a sequence of rows, as wide as the rows or, if there are none, as wide as
    declared. -/
def rowTensor (data : Datum) (m : Int) : Except Fault Tensor := do
  let rows ← splitRows data
  let widths := distinctWidths rows
  if 1 < widths.length then throw (.matrix (.ragged widths))
  let tensor ← Tensor.ofDatum (.list (rows.map .list))
  let width : Int := match widths with
    | w :: _ => w
    | [] => m
  if width < 0 ∨ tensor.entries.length ≠ rows.length * width.toNat then
    throw (.cannotReshape tensor.entries.length [rows.length, width])
  if !Grid.isHoldable [rows.length, width.toNat] then throw .badValue
  return { shape := [rows.length, width.toNat], entries := tensor.entries }

/-- The table of an array: a missing dimension can only be declared if there are no
    entries. -/
def tensorGrid (tensor : Tensor) (n m : Option Int) : Except Fault (Grid Float) :=
  if tensor.entries.isEmpty ∧ (n = some 0 ∨ m = some 0) then
    declaredGrid (n.getD 0) (m.getD 0)
  else
    match tensor.shape with
    | [height, width] =>
      match Grid.ofList? height width tensor.entries with
      | some g => .ok g
      | none => .error .badValue
    | shape => .error (.matrix (.notTwoDimensional shape))

/-- The table of an input for the declared numbers of workers and jobs, as far as they are
    declared. -/
def toGrid (input : CostInput) (n m : Option Int) : Except Fault (Grid Float) :=
  match input with
  | .array tensor => tensorGrid tensor n m
  | .rows data => (rowTensor data (m.getD 0)).bind fun tensor => tensorGrid tensor n m

end CostInput

end Roster
