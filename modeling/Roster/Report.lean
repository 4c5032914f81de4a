import Roster.Cost.Labelled
import Roster.Outcome

/-!
# The Report of an Assignment

A plain text: one line for the total, one for each job in order, and on request one for
the workers that are left over. The total has three places and each cost two, rounded
from the exact value.

A label in a job's line may be any datum and is shown as running text. The line of the
left over workers joins labels and takes texts only.

## Main definitions

* `Report.render`: The report of a summary.
* `Report.lines`: Its lines.
-/

namespace Roster

namespace Report

/-- The total of a summary with three places. -/
def totalText : Datum → Except Fault String
  | .number n =>
    match n.toDouble? with
    | some x => .ok (Decimal.fixed 3 x)
    | none => .error .tooLarge
  | .text _ => .error .badValue
  | .codes _ => .error .badValue
  | _ => .error .wrongKind

/-- The labels of a side, or none if its members are numbered. -/
def givenLabels : Datum → Except Fault (Option (List Datum))
  | .null => .ok none
  | given =>
    match given.items? with
    | some labels => .ok (some labels)
    | none => .error .wrongKind

/-- The label at an index, where a negative index counts from the end. -/
def labelAt (labels : List Datum) (i : Int) : Except Fault Datum :=
  let k := if i < 0 then i + labels.length else i
  if k < 0 then .error .outOfBounds
  else
    match labels[k.toNat]? with
    | some label => .ok label
    | none => .error .outOfBounds

/-- The label of a member of a side by its index. Labels that are given want an integer or a
    truth value, and numbered ones name whatever it is, if it can be written. -/
def label (labels : Option (List Datum)) (noun : String) (index : Datum) : Except Fault Datum :=
  match labels, index with
  | some given, .number (.whole i) => labelAt given i
  | some given, .number (.truth b) => labelAt given (if b then 1 else 0)
  | some _, _ => .error .wrongKind
  | none, index =>
    if index.isWritable then .ok (.text (noun ++ " " ++ index.display))
    else .error (.overlongInteger none)

/-- A label as running text, which one with a very long integer does not have. -/
def shown (label : Datum) : Except Fault String :=
  if label.isWritable then .ok label.display else .error (.overlongInteger none)

/-- The cost in a cell of an array with two places. An array of more dimensions has no
    single cost there, and neither has a truth value in place of a row. -/
def costText (costs : Tensor) (row : Datum) (j : Nat) : Except Fault String :=
  match row, costs.shape with
  | .number (.whole w), height :: width :: deeper =>
    if height ≤ w.toNat ∨ width ≤ j then .error .outOfBounds
    else if !deeper.isEmpty then .error .wrongKind
    else
      match costs.entries[w.toNat * width + j]? with
      | some cost => .ok (Decimal.fixed 2 cost)
      | none => .error .outOfBounds
  | .number (.truth _), height :: _ => .error (if j < height then .wrongKind else .outOfBounds)
  | _, _ => .error .outOfBounds

/-- The line of a job, given its label and its worker. -/
def jobLine (costs : Tensor) (workers jobs : Option (List Datum)) (j : Nat) (w : Datum) :
    Except Fault String := do
  let job ← label jobs "Job" (.number (.whole j))
  if ← Matching.isWorker w then
    let jobText ← shown job
    let worker ← label workers "Worker" w
    let workerText ← shown worker
    let cost ← costText costs w j
    return jobText ++ " -> " ++ workerText ++ " (Cost = " ++ cost ++ ")"
  else return (← shown job) ++ " -> unassigned"

/-- The lines of some jobs, the first of which has the number `j`. -/
def jobLines (costs : Tensor) (workers jobs : Option (List Datum)) :
    Nat → List Datum → Except Fault (List String)
  | _, [] => .ok []
  | j, w :: rest => do
    let line ← jobLine costs workers jobs j w
    let others ← jobLines costs workers jobs (j + 1) rest
    return line :: others

/-- The text that a label is. -/
def asText : Datum → Except Fault String
  | .text s => .ok s
  | .codes ns => .ok (Datum.codes ns).display
  | _ => .error .wrongKind

/-- The line of the left over workers. -/
def idleLine (workers : Option (List Datum)) (idle : List Datum) : Except Fault String := do
  let labels ← idle.mapM (label workers "Worker")
  let texts ← labels.mapM asText
  return "Unmatched workers: " ++ ", ".intercalate texts

/-- The lines of a report. -/
def lines (summary : Summary) (costs : Tensor) (workers jobs : Option (List Datum))
    (showIdle : Bool) : Except Fault (List String) := do
  let total ← totalText summary.total
  let jobRows ← jobLines costs workers jobs 0 (← summary.entries)
  let last ← if showIdle && summary.idle.truthy then
      (summary.idleItems.bind (idleLine workers)).map ([·])
    else pure []
  return ("Minimum total cost = " ++ total) :: jobRows ++ last

/-- The array of costs that a report reads: any nesting will do. -/
def costArray : CostInput → Except Fault Tensor
  | .array tensor => .ok tensor
  | .rows data => Tensor.ofDatum data

/-- The report of a summary, without a line end after the last line. -/
def render (summary : Summary) (costs : CostInput) (workers jobs : Datum) (showIdle : Bool) :
    Except Fault String := do
  let array ← costArray costs
  let workerLabels ← givenLabels workers
  let jobLabels ← givenLabels jobs
  let rows ← lines summary array workerLabels jobLabels showIdle
  return "\n".intercalate rows

/-- The report of a labelled matrix and the outcome for it, with the workers left over. -/
def ofMatrix (matrix : CostMatrix) (outcome : Outcome Float) : Except Fault String :=
  render outcome.summary (CostMatrix.gridInput matrix.costs) (.list matrix.workerIds)
    (.list matrix.jobIds) true

end Report

end Roster
