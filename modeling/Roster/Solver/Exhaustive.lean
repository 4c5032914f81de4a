import Roster.Outcome

/-!
# Trying Every Matching

The ground truth for small problems. Each member of the smaller side, in order, takes a
member of the larger side that is not taken yet; the totals of all such choices are
compared, and the first least one wins. A total counts only if it passes the test
`bounded`, so that a sum of doubles which is infinite or no number never wins.

`selections` lists the choices, in lexicographic order when the pool is increasing.
`explore` visits them in the same order without building the list: a sum is carried
down and shared by all choices that begin alike, which is the same sum because sums run
from the left.

## Main definitions

* `Exhaustive.selections`: All choices of distinct members of a pool.
* `Exhaustive.explore`: The first least choice.
* `Exhaustive.matching`: The matching of least total.
-/

namespace Roster

namespace Exhaustive

variable {α σ ι : Type}

/-- The largest smaller side for which every matching is tried. -/
def maxSide : Nat := 8

/-- All ways to choose `count` distinct members of a pool in order. -/
def selections [BEq ι] : Nat → List ι → List (List ι)
  | 0, _ => [[]]
  | count + 1, pool =>
    pool.flatMap fun x => (selections count (pool.erase x)).map (x :: ·)

/-- The least total so far with its choice. -/
abbrev Best (α ι : Type) := Option (α × List ι)

/-- Keeps the better of the best choice so far and a new one, which has to be strictly
    less. -/
def keep (A : Arithmetic α) (bounded : α → Bool) (total : α) (choice : List ι) :
    Best α ι → Best α ι
  | none => if bounded total then some (total, choice) else none
  | some (least, kept) =>
    if bounded total && A.less total least then some (total, choice) else some (least, kept)

/-- Visits every way to go on from a partial choice, which is held latest first. -/
def explore [BEq ι] (A : Arithmetic α) (bounded : α → Bool) (cost : σ → ι → α) :
    List σ → List ι → α → List ι → Best α ι → Best α ι
  | [], _, total, choice, best => keep A bounded total choice.reverse best
  | s :: rest, pool, total, choice, best =>
    pool.foldl
      (fun best x =>
        explore A bounded cost rest (pool.erase x) (A.add total (cost s x)) (x :: choice) best)
      best

/-- The first least choice of distinct members of the pool for the members of a side. -/
def leastChoice [BEq ι] (A : Arithmetic α) (bounded : α → Bool) (cost : σ → ι → α)
    (side : List σ) (pool : List ι) : Best α ι :=
  explore A bounded cost side pool A.zero [] none

/-- The matching in which the workers, in order, have the chosen jobs. -/
def ofJobs (m : Nat) (jobs : List Nat) : Matching :=
  (List.range m).map fun j =>
    match jobs.idxOf? j with
    | some w => (w : Int)
    | none => -1

/-- The matching of least total, or none at all if no total is bounded. -/
def matching (A : Arithmetic α) (bounded : α → Bool) (costs : Grid α) : Matching :=
  if costs.height = 0 ∨ costs.width = 0 then Matching.unassigned costs.width
  else if costs.height ≤ costs.width then
    match leastChoice A bounded (fun w j => costs.get w j) (List.finRange costs.height)
        (List.finRange costs.width) with
    | some (_, jobs) => ofJobs costs.width (jobs.map Fin.val)
    | none => Matching.unassigned costs.width
  else
    match leastChoice A bounded (fun j w => costs.get w j) (List.finRange costs.width)
        (List.finRange costs.height) with
    | some (_, workers) => workers.map fun w => (w.val : Int)
    | none => Matching.unassigned costs.width

end Exhaustive

end Roster
