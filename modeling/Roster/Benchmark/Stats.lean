import Roster.Outcome

/-!
# Measurements of a Solver

What is kept of the solves of one solver: the costs and times in order, the greatest
distance of a cost from that of the baseline, and the number of matchings that differ
from the baseline's. The baseline itself is recorded without a comparison. Costs stay in
the form in which they are given, so that whole costs have an exact distance.

Means are sums divided by counts, and a sum of doubles depends on the order of its
additions. Here a short list is added from the left, a list of up to 128 in eight
interleaved columns that are then added in pairs, and a longer one by halves.

## Main definitions

* `Stats`: The measurements of a solver.
* `Stats.record`: One more solve.
* `Stats.recordChecked`: One more solve, if its cost can be compared.
* `pairwiseSum`, `mean`: Sums and means of doubles.
* `percentile`: A point between the sorted values.
-/

namespace Roster

/-- The measurements of one solver. -/
structure Stats where
  costs : List Number
  times : List Float
  maxGap : Number
  mismatches : Nat

/-- What a comparison needs of an outcome, with a matching in whatever form. -/
structure Stats.Answer (β : Type) where
  total : Number
  workerOf : β

namespace Stats

/-- No measurements. -/
def empty : Stats where
  costs := []
  times := []
  maxGap := .real 0.0
  mismatches := 0

/-- The greater of the greatest distance so far and that of two totals; totals without a
    distance leave it as it is. -/
def widerGap (gap : Number) (a b : Number) : Number :=
  match a.distance? b with
  | some distance => gap.greater distance
  | none => gap

/-- One more solve, compared with the baseline's answer if there is one. -/
def record {β : Type} [BEq β] (s : Stats) (answer : Answer β) (elapsed : Float)
    (baseline : Option (Answer β)) : Stats :=
  let s := { s with costs := s.costs ++ [answer.total], times := s.times ++ [elapsed] }
  match baseline with
  | none => s
  | some base =>
    { s with
      maxGap := widerGap s.maxGap answer.total base.total
      mismatches := if answer.workerOf == base.workerOf then s.mismatches else s.mismatches + 1 }

/-- One more solve, unless its total has no distance from the baseline's. -/
def recordChecked {β : Type} [BEq β] (s : Stats) (answer : Answer β) (elapsed : Float)
    (baseline : Option (Answer β)) : Except Fault Stats :=
  if baseline.all fun base => (answer.total.distance? base.total).isSome then
    .ok (s.record answer elapsed baseline)
  else .error .tooLarge

/-- The doubles nearest to some numbers, as far as there are any. -/
def doubles (numbers : List Number) : List Float := numbers.filterMap Number.toDouble?

/-- The greatest distance as a double. -/
def gapValue (s : Stats) : Float := s.maxGap.toDouble?.getD Decimal.infinity

end Stats

/-- The answer in an outcome. -/
def Outcome.answer (o : Outcome Float) : Stats.Answer Matching :=
  { total := .real o.total, workerOf := o.workerOf }

/-- A sum from the left. -/
def plainSum (xs : List Float) : Float := xs.foldl (· + ·) 0.0

/-- Adds rows of eight to eight columns, at most `fuel` of them. -/
def addRows : Nat → List Float → List Float → List Float
  | 0, columns, _ => columns
  | fuel + 1, columns, xs =>
    if xs.length < 8 then columns
    else addRows fuel (List.zipWith (· + ·) columns (xs.take 8)) (xs.drop 8)

/-- The sum of eight columns in pairs. -/
def addColumns : List Float → Float
  | [a, b, c, d, e, f, g, h] => ((a + b) + (c + d)) + ((e + f) + (g + h))
  | xs => plainSum xs

/-- The sum of at most 128 values: eight columns in pairs, and then the values left over. -/
def blockSum (xs : List Float) : Float :=
  if xs.length < 8 then plainSum xs
  else
    let columns := addRows xs.length (xs.take 8) (xs.drop 8)
    (xs.drop (xs.length / 8 * 8)).foldl (· + ·) (addColumns columns)

/-- The sum of some values: longer lists are cut into halves, the first a multiple of
    eight. -/
def pairwiseSum : Nat → List Float → Float
  | 0, xs => blockSum xs
  | fuel + 1, xs =>
    if xs.length ≤ 128 then blockSum xs
    else
      let half := xs.length / 2 / 8 * 8
      pairwiseSum fuel (xs.take half) + pairwiseSum fuel (xs.drop half)

/-- The mean of some values. -/
def mean (xs : List Float) : Float := pairwiseSum xs.length xs / Float.ofNat xs.length

/-- The value below which a share of some values lies, between two neighbours as far as the
    share falls between their places. -/
def percentile (share : Float) (xs : List Float) : Float :=
  let sorted := xs.mergeSort fun a b => decide (a ≤ b)
  let place := share / 100.0 * Float.ofNat (xs.length - 1)
  let low := place.floor.toUInt64.toNat
  let a := (sorted[low]?).getD 0.0
  let b := (sorted[low + 1]?).getD a
  a + (b - a) * (place - place.floor)

/-- The greatest of some values: a later one only if it lies above those before. -/
def maximum (xs : List Float) : Float :=
  xs.foldl (fun x y => if x < y then y else x) ((xs.head?).getD 0.0)

end Roster
