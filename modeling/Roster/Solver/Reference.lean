import Roster.Number.Binary64
import Roster.Solver.Method

/-!
# A Library of Exact Solvers

The methods take a library as they find it. This is the one that the programs are run with:
two solvers that never round a sum. One works on the costs themselves: the doubles of a
matrix are whole multiples of one power of two, and multiples are whole numbers. The
other works on whole numbers to begin with. Both run the same search as the padded
method, but on whole numbers and padded with zeros. Other libraries break ties in other
ways, so nothing is to be concluded from which of two cheapest matchings is found here.

A cell of infinite cost may not be used. It gets a price above the sum of all other
costs, so that a matching uses as few such cells as it can; if it still uses one, there
is no admissible matching. The solver of whole numbers multiplies its costs by a number that
grows with the square, and refuses those for which 64 bits would not be enough.

## Main definitions

* `Reference.exactMatching`: A cheapest matching of exact costs.
* `Reference.ofDoubles`: Cheapest pairs of a matrix of doubles.
* `Reference.mates`: The columns of a cheapest matching of a square.
* `Reference.library`: Both solvers together.
-/

namespace Roster

namespace Reference

/-- A bound above every cost: one more than the sum of all magnitudes. -/
def bound (costs : Grid Int) : Int :=
  costs.toList.foldl (fun sum c => sum + (c.natAbs : Int)) 1

/-- The arithmetic of integers. -/
def integers : Arithmetic Int := @Arithmetic.ofOrder Int ⟨0⟩ _ _ _ _

/-- A cheapest matching of whole costs, found on the square padded with zeros. -/
def exactMatching (costs : Grid Int) : Except Fault Matching :=
  (Padded.solve integers costs costs.height costs.width 0 (bound costs)).map
    Outcome.workerOf

/-- The column of each row of a square in a cheapest matching of whole costs. -/
def mates (square : Grid Int) : Except Fault (List Nat) :=
  (exactMatching square).map fun rowOf =>
    (List.range square.height).map fun r => rowOf.idxOf (r : Int)

/-- The least exponent among the finite costs, and at most zero. -/
def leastExponent (costs : Grid Float) : Int :=
  costs.toList.foldl
    (fun least x =>
      match Binary64.content x with
      | .finite _ _ e => min least e
      | _ => least)
    0

/-- A cost as a multiple of `2 ^ unit`; none for an infinite cost. -/
def inUnits (unit : Int) (x : Float) : Option Int :=
  match Binary64.content x with
  | .finite negative m e =>
    let n : Int := (m * Nat.pow 2 (e - unit).toNat : Nat)
    some (if negative then -n else n)
  | _ => none

/-- Whether a cost can be ordered among others as a price: it is a number and not the
    negative infinity. -/
def isPrice (x : Float) : Bool := !x.isNaN && !(x == -Decimal.infinity)

/-- Cheapest pairs of a matrix of doubles that use no infinite cell. -/
def ofDoubles (costs : Grid Float) : Except Fault (List (Nat × Nat)) := do
  if !costs.toList.all isPrice then throw .noFiniteMatching
  let units := costs.map (inUnits (leastExponent costs))
  let price := 2 * bound (units.map fun c => c.getD 0)
  let matching ← exactMatching (units.map fun c => c.getD price)
  if matching.pairs.all fun (w, j) => (costs.get? w j).any Float.isFinite then
    return matching.pairs
  throw .noFiniteMatching

/-- The greatest cost of a square of this side that can be multiplied by one more than the
    side. -/
def arcLimit (side : Nat) : Int := (Nat.pow 2 63 - 1) / (side + 1)

/-- The columns of a cheapest matching of a square, unless some cost is too large. -/
def boundedMates (square : Grid Int) : Except Fault (List Nat) :=
  if square.toList.all fun c => c.natAbs ≤ arcLimit square.height then mates square
  else .error .scaledRange

/-- A library of exact solvers. -/
def library : Library Float where
  pairs := ofDoubles
  mates := boundedMates

end Reference

end Roster
