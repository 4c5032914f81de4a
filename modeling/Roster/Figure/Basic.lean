import Roster.Cost.Input
import Roster.Outcome
import Roster.Report

/-!
# The Figure of an Assignment

A heatmap of the cost matrix with the matching on it, as data: workers are rows and jobs
are columns, each matched cell has an outline, and the labels of open jobs and left over
workers are grey. Small matrices have their costs written into the cells, in white on
the darker half of the scale.

The number of workers is that of the matched and the left over ones together, which is
known even when the matrix has no cells.

A size that is not given grows with the matrix. One that is given may be in a unit of its
own, and one of its sides may be left open. The scale has to have a finite extent.

At last everything is fitted into the figure, and for that it is rendered. A renderer is
taken from elsewhere, and some have no canvas for a large figure.

## Main definitions

* `Figure`: What the heatmap shows.
* `Figure.Renderer`: The canvases that a renderer has.
* `Figure.compose`: The figure of costs and a summary before it is rendered.
* `Figure.draw`: The figure of costs and a summary, rendered.
-/

namespace Roster

/-- A label on an axis. -/
structure Figure.Tick where
  text : String
  grey : Bool

/-- A cost written into a cell. -/
structure Figure.Annotation where
  column : Nat
  row : Nat
  text : String
  white : Bool

/-- The outline of a matched cell. -/
structure Figure.Outline where
  column : Nat
  row : Number

/-- What the heatmap shows. -/
structure Figure where
  width : Float
  height : Float
  costs : Grid Float
  title : String
  jobAxis : String
  workerAxis : String
  /-- The title of the colour scale, if there is one. -/
  scaleTitle : Option String
  jobs : List Figure.Tick
  workers : List Figure.Tick
  annotations : List Figure.Annotation
  outlines : List Figure.Outline

namespace Figure

/-- The largest number of cells whose costs are written by default. -/
def annotatedCells : Nat := 400

/-- The width of an outline. -/
def outlineWidth : Float := 2.5

/-- The name of a label's colour. -/
def Tick.colour (t : Tick) : String := if t.grey then "#969696" else "black"

/-- The name of an annotation's colour. -/
def Annotation.colour (a : Annotation) : String := if a.white then "white" else "black"

/-- The left or upper edge of the cell at a place. -/
def edge (place : Float) : Float := place - 0.5

/-- The left edge of an outline. -/
def Outline.left (o : Outline) : Float := edge (Float.ofNat o.column)

/-- The upper edge of an outline. -/
def Outline.top (o : Outline) : Float := edge (o.row.toDouble?.getD 0.0)

/-- The number of the row in which an outline stands. -/
def Outline.index (o : Outline) : Nat := ((o.row.toDouble?.getD 0.0).toUInt64).toNat

/-- The larger of two doubles: the first unless the second is above it. -/
def larger (x y : Float) : Float := if x < y then y else x

/-- The size of a figure that is not given: it grows with the matrix from a least size. -/
def naturalSize (n m : Nat) : Float × Float :=
  (larger 4.0 (0.8 * Float.ofNat m + 2.0), larger 3.0 (0.6 * Float.ofNat n + 1.5))

/-- The greater or lesser of two doubles under `above`; a value that is no number prevails. -/
def extreme (above : Float → Float → Bool) (x y : Float) : Float :=
  if x.isNaN then x else if y.isNaN then y else if above y x then y else x

/-- The middle of the scale: half way between the least and the greatest cost. -/
def middle : List Float → Float
  | [] => Decimal.notANumber
  | x :: rest =>
    (rest.foldl (extreme fun a b => b < a) x + rest.foldl (extreme fun a b => a < b) x) / 2.0

/-- The costs written into the cells, row by row. -/
def annotate (costs : Grid Float) : List Annotation :=
  let threshold := middle costs.toList
  costs.toList.mapIdx fun k cost =>
    { column := k % costs.width
      row := k / costs.width
      text := Decimal.fixed 1 cost
      white := cost < threshold }

/-- A label on an axis as text; a label that is nothing is empty. -/
def labelText (label : Datum) : Except Fault String :=
  match label with
  | .null => .ok ""
  | label => Report.shown label

/-- The labels of an axis: those given, numbers behind a letter if none are given, and
    nothing at all if the given list is empty. -/
def labelTexts (given : Datum) (letter : String) (count : Nat) : Except Fault (List String) :=
  match given with
  | .null => .ok ((List.range count).map fun i => letter ++ Decimal.digits i)
  | given =>
    match given.items? with
    | none => .error .wrongKind
    | some [] => .ok (List.replicate count "")
    | some labels =>
      if labels.length ≠ count then .error .badValue else labels.mapM labelText

/-- Whether the job at an index stays open; a matching may be too short to say. -/
def isOpen (matching : List Datum) (j : Nat) : Except Fault Bool :=
  match matching[j]? with
  | some (.number n) => .ok (n.less (.whole 0))
  | some _ => .error .wrongKind
  | none => .error .outOfBounds

/-- The labels of the jobs, grey for open ones. -/
def jobTicks (matching : List Datum) (labels : List String) : Except Fault (List Tick) :=
  labels.zipIdx.mapM fun (text, j) => (isOpen matching j).map fun grey => { text, grey }

/-- The labels of the workers, grey for those left over, which are looked up like keys. -/
def workerTicks (idle : List Datum) (labels : List String) : Except Fault (List Tick) :=
  if idle.all Datum.isKey then
    .ok (labels.zipIdx.map fun (text, i) =>
      { text, grey := idle.any fun d => d.sameKey (.number (.whole i)) })
  else .error .wrongKind

/-- The title that is given, unless it counts as false, or else the total. -/
def titleText (given total : Datum) : Except Fault String :=
  if given.truthy then Report.shown given
  else (Report.totalText total).map fun text => "Optimal assignment (total cost = " ++ text ++ ")"

/-! ## Size -/

/-- The width of a figure of which only the height is given. -/
def openWidth : Float := 6.4

/-- The height of a figure of which only the width is given. -/
def openHeight : Float := 4.8

/-- What the units of a size divide it by; the first changes nothing. -/
def units : List (String × Option Float) :=
  [("in", none), ("cm", some 2.54), ("px", some 100.0)]

/-- A side of a figure, where one that is left open has a length of its own. In no unit, an
    integer beyond a word is no length. -/
def side (unit : Option Float) (otherwise : Float) (given : Datum) : Except Fault Float :=
  match unit, given with
  | _, .null => .ok otherwise
  | some divisor, .number n =>
    match n.toDouble? with
    | some x => .ok (x / divisor)
    | none => .error .tooLarge
  | none, .number (.whole i) =>
    if -Nat.pow 2 63 ≤ i ∧ i < Nat.pow 2 64 then .ok (Float.ofInt i) else .error .wrongKind
  | none, .number n => .ok (n.toDouble?.getD 0.0)
  | _, _ => .error .wrongKind

/-- The sides of a figure that are given in a unit. They have to be of one shape before they
    have to be numbers. -/
def sides (unit : Option Float) (width height : Datum) : Except Fault (Float × Float) :=
  match width, height with
  | .null, .null => .error .badValue
  | width, height =>
    if unit.isNone && !(Tensor.evenShape Tensor.maxDimensions (.list [width, height])).2 then
      .error .badValue
    else
      (side unit openWidth width).bind fun w => (side unit openHeight height).map fun h => (w, h)

/-- Whether a length can be that of a figure. -/
def isLength (x : Float) : Bool := x.isFinite && 0.0 ≤ x

/-- The length that spans from the origin to a length: zero without its sign. -/
def spanned (x : Float) : Float := 0.0 + x

/-- The size that is given, perhaps in a unit, or else the one that suits the matrix. -/
def sizeOf (given : Datum) (costs : Grid Float) : Except Fault (Float × Float) := do
  let (width, height) ←
    if !given.truthy then pure (naturalSize costs.height costs.width)
    else
      match given.items? with
      | some [width, height] => sides none width height
      | some [width, height, .text name] =>
        match units.lookup name with
        | some unit => sides unit width height
        | none => throw .badValue
      | some _ => throw .badValue
      | none => throw .wrongKind
  if !isLength width || !isLength height then throw .badValue
  return (spanned width, spanned height)

/-! ## The figure -/

/-- Whether the scale of some costs has an extent, which only the finite ones settle. -/
def hasScale (costs : Grid Float) : Bool :=
  match costs.toList.filter Float.isFinite with
  | [] => true
  | x :: rest => (rest.foldl larger x - rest.foldl (fun a b => if b < a then b else a) x).isFinite

/-- The wishes for a figure, each of which may be left open. -/
structure Wishes where
  title : Datum
  workers : Datum
  jobs : Datum
  size : Datum
  annotate : Option Bool

/-- No wishes at all. -/
def Wishes.none : Wishes where
  title := .null
  workers := .null
  jobs := .null
  size := .null
  annotate := Option.none

/-- The outlines of matched workers with their jobs, which have to be at a place. -/
def outlinesOf (pairs : List (Number × Nat)) : Except Fault (List Outline) :=
  pairs.mapM fun (row, column) =>
    if row.toDouble?.isSome then .ok { column, row } else .error .tooLarge

/-- The figure of costs and a summary before it is rendered. The colour scale is drawn only if
    there are cells. -/
def compose (input : CostInput) (summary : Summary) (wishes : Wishes) : Except Fault Figure := do
  let matching ← summary.entries
  let pairs ← Summary.pairsFrom 0 matching
  let idle ← summary.idleItems
  let costs ← input.toGrid (some (pairs.length + idle.length)) (some matching.length)
  let (width, height) ← sizeOf wishes.size costs
  if !hasScale costs then throw .badValue
  let written := wishes.annotate.getD (costs.size ≤ annotatedCells)
  let outlines ← outlinesOf pairs
  let jobLabels ← labelTexts wishes.jobs "J" costs.width
  let workerLabels ← labelTexts wishes.workers "W" costs.height
  let jobs ← jobTicks matching jobLabels
  let workers ← workerTicks idle workerLabels
  let title ← titleText wishes.title summary.total
  return {
    width := width
    height := height
    costs := costs
    title := title
    jobAxis := "Job"
    workerAxis := "Worker"
    scaleTitle := if costs.isEmpty then none else some "Cost"
    jobs := jobs
    workers := workers
    annotations := if written then annotate costs else []
    outlines := outlines }

/-- The texts of a figure that stand outside its cells. -/
def texts (figure : Figure) : List String :=
  figure.title :: (figure.jobs ++ figure.workers).map Tick.text ++
    [figure.jobAxis, figure.workerAxis] ++ figure.scaleTitle.toList

/-- Whether a renderer has a canvas of so many pixels in width and in height. -/
abbrev Renderer := Nat → Nat → Bool

/-- The renderer with a canvas of every size. -/
def boundless : Renderer := fun _ _ => true

/-- The pixels to an inch. -/
def resolution : Float := 100.0

/-- The pixels that a length takes. -/
def pixels (length : Float) : Nat := (length * resolution).toUInt64.toNat

/-- Whether a renderer has a canvas for a figure. -/
def fits (figure : Figure) (renderer : Renderer) : Bool :=
  renderer (pixels figure.width) (pixels figure.height)

/-- The figure of costs and a summary, which is rendered to fit everything into it. -/
def draw (renderer : Renderer) (input : CostInput) (summary : Summary) (wishes : Wishes) :
    Except Fault Figure := do
  let figure ← compose input summary wishes
  if !figure.fits renderer then throw .badValue
  return figure

end Figure

end Roster
