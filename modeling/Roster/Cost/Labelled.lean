import Roster.Cost.Check
import Roster.Cost.Input

/-!
# Labelled Cost Matrices

A cost matrix whose rows and columns carry labels. Rows are workers and columns are
jobs; without labels of their own they are numbered. Labels are kept as they are given,
and need not be texts.

The matrix is always checked, against the default padding sentinel, and before the
labels are looked at.

## Main definitions

* `CostMatrix`: Costs with labels.
* `CostMatrix.build`: A checked matrix from costs and labels.
-/

namespace Roster

/-- Costs with a label for each row and each column. -/
structure CostMatrix where
  costs : Grid Float
  workerIds : List Datum
  jobIds : List Datum

namespace CostMatrix

/-- The sentinel against which a labelled matrix is checked. -/
def sentinel : Number := .real 1.0e9

/-- The label of a numbered member of a side. -/
def numbered (noun : String) (i : Nat) : String := noun ++ " " ++ Decimal.digits i

/-- The labels that are given, or numbers if there are none. -/
def labels (given : Datum) (noun : String) (count : Nat) : Except Fault (List Datum) :=
  match given with
  | .null => .ok ((List.range count).map fun i => .text (numbered noun i))
  | given =>
    match given.items? with
    | some labels => .ok labels
    | none => .error .wrongKind

/-- A checked matrix with labels, of which there have to be as many as rows and columns. -/
def build (input : CostInput) (workers jobs : Datum) : Except Fault CostMatrix := do
  let costs ← input.toGrid none none
  Cost.check costs costs.height costs.width sentinel
  let workerIds ← labels workers "Worker" costs.height
  let jobIds ← labels jobs "Job" costs.width
  if workerIds.length ≠ costs.height ∨ jobIds.length ≠ costs.width then
    throw (.matrix (.labelCount workerIds.length jobIds.length costs.height costs.width))
  return { costs := costs, workerIds := workerIds, jobIds := jobIds }

/-- A grid as an input. -/
def gridInput (g : Grid Float) : CostInput :=
  .array { shape := [g.height, g.width], entries := g.toList }

end CostMatrix

end Roster
