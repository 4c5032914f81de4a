import Roster.Solver.Exhaustive
import Roster.Solver.Padded

/-!
# Methods

Four methods answer one question: which pairing of workers with jobs matches all of the
smaller side at least cost. The padded search is the method of choice; two solvers taken
from elsewhere and the exhaustive search check it.

One of those solvers pairs the rows and columns of a rectangle. The other knows whole
numbers and squares only: it gets the costs times a factor, rounded, on a square that is
filled up with zeros, and says which column each row has. Of its answer only real workers
with real jobs are kept.

What kind of numbers costs are is left open here. The total of an outcome is always added
up anew from the costs themselves, by whatever method its matching was found.

## Main definitions

* `Library`: The solvers that are taken from elsewhere.
* `Tools`: The numbers that costs are, with a library for them.
* `Settings`: The settings that enter a computation.
* `Method`: The methods by name.
* `Method.solvePrepared`: One solve by a method.

## Theorems

* `searchPrepared_own`: A table of its own size needs both settings.
* `Library.matching_of_pairs`: What a library that answers inside the table comes to.
-/

namespace Roster

variable {α : Type}

/-- The solvers that are taken from elsewhere. -/
structure Library (α : Type) where
  /-- The rows and columns of a table that is not empty, paired at least cost. -/
  pairs : Grid α → Except Fault (List (Nat × Nat))
  /-- The column of each row of a square of whole numbers, at least cost. -/
  mates : Grid Int → Except Fault (List Nat)

/-- The numbers that costs are, with a library for them. -/
structure Tools (α : Type) extends Library α where
  arithmetic : Arithmetic α
  /-- Whether a total can be the least one. -/
  bounded : α → Bool
  /-- What a cost times a factor becomes as a whole number; none if that is refused. -/
  scaled : (factor cost : α) → Option Int

/-- The settings that enter a computation. One may stand for no number, which matters only
    to a method that uses it. -/
structure Settings (α : Type) where
  padding : Except Fault α
  reach : Except Fault α
  scale : Except Fault α

/-- The padded search on a prepared matrix. No setting is needed if there is nothing to
    match, and none but the padding if the matrix does not fit into the square. -/
def searchPrepared (A : Arithmetic α) (costs : Grid α) (n m : Nat) (settings : Settings α) :
    Except Fault (Outcome α) := do
  if n = 0 ∨ m = 0 then Padded.solve A costs n m A.zero A.zero
  else
    let padding ← settings.padding
    let reach ← if Padded.exceeds costs n m then .ok padding else settings.reach
    Padded.solve A costs n m padding reach

/-- A table with something to match fits into the square for its own size, so both settings are
    needed. -/
theorem searchPrepared_own (A : Arithmetic α) {costs : Grid α} (settings : Settings α)
    (hempty : ¬ (costs.height = 0 ∨ costs.width = 0)) :
    searchPrepared A costs costs.height costs.width settings = (do
      let padding ← settings.padding
      let reach ← settings.reach
      Padded.solve A costs costs.height costs.width padding reach) := by
  rw [searchPrepared, if_neg hempty]
  simp only [Padded.exceeds_own, Bool.false_eq_true, if_false]

/-- The matching that a library finds for the table itself. A column beyond the table has no
    place in a matching. -/
def Library.matching (library : Library α) (costs : Grid α) : Except Fault Matching := do
  if costs.isEmpty then return Matching.unassigned costs.width
  let pairs ← library.pairs costs
  if pairs.any fun x => costs.width ≤ x.2 then throw .outOfBounds
  return Matching.place costs.width pairs

/-- If all columns are in the table, the matching is that of the library's pairs. -/
theorem Library.matching_of_pairs {library : Library α} {costs : Grid α} {pairs : List (Nat × Nat)}
    (hempty : ¬ costs.isEmpty = true) (h : library.pairs costs = .ok pairs)
    (hin : ∀ x ∈ pairs, x.2 < costs.width) :
    library.matching costs = .ok (Matching.place costs.width pairs) := by
  have hany : ¬ (pairs.any fun x => costs.width ≤ x.2) = true := by
    rw [List.any_eq_true]
    rintro ⟨x, hx, hbeyond⟩
    exact Nat.not_le.mpr (hin x hx) (of_decide_eq_true hbeyond)
  rw [matching, if_neg hempty, h]
  exact if_neg hany

namespace Square

/-- The whole numbers that some costs become, if every cost becomes one. -/
def wholeCosts (whole : α → Option Int) (costs : Grid α) : Except Fault (Grid Int) :=
  let rounded := costs.map whole
  if rounded.toList.all Option.isSome then .ok (rounded.map fun c => c.getD 0)
  else .error .scaledRange

/-- A table as part of a square, with zeros around it. -/
def ofGrid (costs : Grid Int) : Grid Int :=
  let size := max costs.height costs.width
  Grid.ofFn size size fun i j => (costs.get? i.val j.val).getD 0

/-- The pairs of a worker below `n` with a job below `m`, where `mates` are the columns of a
    square in row order. -/
def kept (n m : Nat) (mates : List Nat) : List (Nat × Nat) :=
  (Matching.jobPairs mates).filter fun x => x.1 < n ∧ x.2 < m

end Square

/-- The matching that a library finds for the scaled and squared table. -/
def Tools.scaledMatching (tools : Tools α) (costs : Grid α) (scale : Except Fault α) :
    Except Fault Matching := do
  if costs.isEmpty then return Matching.unassigned costs.width
  let factor ← scale
  let whole ← Square.wholeCosts (tools.scaled factor) costs
  let mates ← tools.mates (Square.ofGrid whole)
  return Matching.place costs.width (Square.kept costs.height costs.width mates)

/-- The outcome of a matching that was found without potentials. -/
def Tools.plainOutcome (tools : Tools α) (costs : Grid α) (matching : Matching) :
    Except Fault (Outcome α) :=
  Outcome.ofMatching tools.arithmetic costs matching [] []

/-- The methods that find a cheapest matching. -/
inductive Method where
  /-- The search on the padded square. -/
  | padded
  /-- A library on the costs themselves. -/
  | exact
  /-- A library on scaled and rounded costs. -/
  | scaled
  /-- Every matching is tried. -/
  | exhaustive
  deriving DecidableEq, Repr

namespace Method

/-- The name of a method. -/
def name : Method → String
  | .padded => "hungarian"
  | .exact => "scipy"
  | .scaled => "ortools"
  | .exhaustive => "bruteforce"

/-- All methods, by increasing name. -/
def all : List Method := [.exhaustive, .padded, .scaled, .exact]

/-- The method of a name. -/
def ofName? (name : String) : Option Method := all.find? fun s => s.name == name

/-- Solves a prepared matrix of its own size. -/
def solvePrepared (method : Method) (tools : Tools α) (costs : Grid α) (settings : Settings α) :
    Except Fault (Outcome α) :=
  match method with
  | .padded => searchPrepared tools.arithmetic costs costs.height costs.width settings
  | .exact => do tools.plainOutcome costs (← tools.matching costs)
  | .scaled => do tools.plainOutcome costs (← tools.scaledMatching costs settings.scale)
  | .exhaustive =>
    if Exhaustive.maxSide < min costs.height costs.width then
      .error (.tooManyMatchings Exhaustive.maxSide costs.height costs.width)
    else tools.plainOutcome costs (Exhaustive.matching tools.arithmetic tools.bounded costs)

end Method

end Roster
