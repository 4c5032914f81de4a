import Roster.Fault
import Roster.Grid
import Roster.Random.Generator

/-!
# Random Cost Matrices

A scenario is a matrix of costs drawn uniformly below a greatest cost, row by row. A
share of the costs can be rounded down to whole numbers, so that several matchings may
cost the same; which ones is drawn after all costs.

A refused scenario draws nothing. A greatest cost that is not finite is refused before
one that is negative, and both before a size that is negative or too big.

## Main definitions

* `Scenario`: The size and the costs to draw.
* `Scenario.generate`: The matrix of a scenario.
* `generatorOfSeed`: The generator of a seed, which must not be negative.
-/

namespace Roster

/-- What to draw. -/
structure Scenario where
  workers : Int
  jobs : Int
  maxCost : Float
  tieFraction : Float

namespace Scenario

/-- The greatest cost that is drawn below if nothing else is asked for. -/
def defaultMaxCost : Float := 100.0

/-- Costs of which those marked are rounded down. -/
def roundMarked (costs marks : List Float) (fraction : Float) : List Float :=
  List.zipWith (fun cost mark => if mark < fraction then cost.floor else cost) costs marks

/-- The matrix of a scenario and the generator behind it. -/
def generate (s : Scenario) (g : Random.Generator) :
    Except Fault (Grid Float) × Random.Generator :=
  let range := s.maxCost - 0.0
  if !range.isFinite then (.error .tooLarge, g)
  else if (Binary64.content range).isNegative then (.error .badValue, g)
  else if s.workers < 0 ∨ s.jobs < 0 ∨ !Grid.isHoldable [s.workers.toNat, s.jobs.toNat] then
    (.error .badValue, g)
  else
    let n := s.workers.toNat
    let m := s.jobs.toNat
    let (drawn, g) := g.doubles (n * m)
    let costs := drawn.map fun x => 0.0 + range * x
    let (costs, g) :=
      if 0.0 < s.tieFraction then
        let (marks, g) := g.doubles (n * m)
        (roundMarked costs marks s.tieFraction, g)
      else (costs, g)
    match Grid.ofList? n m costs with
    | some grid => (.ok grid, g)
    | none => (.error .badValue, g)

/-- The matrices of some scenarios, drawn from one generator. -/
def generateAll : List Scenario → Random.Generator → List (Except Fault (Grid Float))
  | [], _ => []
  | s :: rest, g =>
    let (answer, g) := s.generate g
    answer :: generateAll rest g

end Scenario

/-- The generator of a seed, which must not be negative. -/
def generatorOfSeed (seed : Int) : Except Fault Random.Generator :=
  if seed < 0 then .error .badValue else .ok (Random.Generator.ofSeed seed.toNat)

end Roster
