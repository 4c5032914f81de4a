import Roster.Config
import Roster.Cost.Check
import Roster.Cost.Input
import Roster.Number.Rounding
import Roster.Solver.Method

/-!
# Solvers

A solver is a method with a configuration and a count of the solves that succeeded.
Nothing else passes from one solve to the next, so each answer depends only on its own
input.

Costs are doubles here. A configuration holds numbers of any kind, and one that is too
large for a double spoils only those solves that compute with it.

The solvers that are taken from elsewhere are an argument of every solve. What they answer is
left open, and so is at which costs they fail. Scaled costs are handed to them unchecked.

## Main definitions

* `prepare`: The checked table of an input.
* `Tools.doubles`: The methods' tools for doubles, with a library.
* `solve`: The padded search for a declared size.
* `Solver`: A method with a configuration and a count.
* `Solver.solve`: One solve with a solver.
* `Note`: What a solve tells an attentive user.
-/

namespace Roster

/-- The table of an input, checked if the configuration asks for it. A declared size is
    checked before the input is looked at. -/
def prepare (size : Option (Int × Int)) (input : CostInput) (config : Config) :
    Except Fault (Grid Float) := do
  match size with
  | some (n, m) => Cost.checkDeclared n m
  | none => pure ()
  let costs ← input.toGrid (size.map Prod.fst) (size.map Prod.snd)
  if config.validates then
    let (n, m) := size.getD (costs.height, costs.width)
    Cost.check costs n m config.paddingSentinel
  return costs

/-- The double that a setting stands for in a computation. -/
def settingDouble (n : Number) : Except Fault Float :=
  match n.toDouble? with
  | some x => .ok x
  | none => .error .tooLarge

/-- The settings of a configuration as doubles. -/
def Settings.ofConfig (config : Config) : Settings Float where
  padding := settingDouble config.paddingSentinel
  reach := settingDouble config.searchInfinity
  scale := settingDouble config.costScale

/-- Whether a total can be the least one, which no infinite one is and nothing that is no
    number. -/
def Exhaustive.isBounded (total : Float) : Bool := total < Decimal.infinity

/-- The tools for doubles, with a library. -/
def Tools.doubles (library : Library Float) : Tools Float where
  toLibrary := library
  arithmetic := .double
  bounded := Exhaustive.isBounded
  scaled factor cost := some (Binary64.toWord (cost * factor))

/-- A cheapest matching of `n` workers and `m` jobs by the padded search. -/
def solve (n m : Int) (input : CostInput) (config : Config) : Except Fault (Outcome Float) := do
  let costs ← prepare (some (n, m)) input config
  searchPrepared .double costs n.toNat m.toNat (Settings.ofConfig config)

namespace Method

/-- Solves a matrix whose shape gives the numbers of workers and jobs. -/
def solve (library : Library Float) (method : Method) (input : CostInput) (config : Config) :
    Except Fault (Outcome Float) := do
  let costs ← prepare none input config
  method.solvePrepared (.doubles library) costs (Settings.ofConfig config)

end Method

/-- A method with its configuration and the number of solves that succeeded. -/
structure Solver where
  method : Method
  config : Config
  solves : Nat

namespace Solver

/-- A new solver by the name of its method. -/
def create (name : String) (config : Config) : Except Fault Solver :=
  match Method.ofName? name with
  | some method => .ok { method := method, config := config, solves := 0 }
  | none => .error (.unknownSolver name)

/-- One solve: the answer, and the solver afterwards. -/
def solve (library : Library Float) (solver : Solver) (input : CostInput) :
    Except Fault (Outcome Float) × Solver :=
  match solver.method.solve library input solver.config with
  | .ok outcome => (.ok outcome, { solver with solves := solver.solves + 1 })
  | .error fault => (.error fault, solver)

/-- The answers to some inputs in turn, each with the count of solves after it. -/
def solveAll (library : Library Float) (solver : Solver) :
    List CostInput → List (Except Fault (Outcome Float) × Nat)
  | [] => []
  | input :: rest =>
    let (answer, next) := solver.solve library input
    (answer, next.solves) :: next.solveAll library rest

end Solver

/-- What the padded search tells an attentive user. -/
inductive Note where
  | solving (workers jobs size : Nat)
  | solved (workers jobs : Nat) (total : Float)

namespace Note

/-- The notes of a padded search that succeeded; there are none if nothing was to match. -/
def ofOutcome (n m : Nat) (outcome : Outcome Float) : List Note :=
  if n = 0 ∨ m = 0 then [] else [.solving n m (max n m), .solved n m outcome.total]

/-- The size of a problem. -/
def sizeText (n m : Nat) : String := Decimal.digits n ++ "x" ++ Decimal.digits m

/-- A note in words, around the time that the solve took. -/
def text (elapsed : String) : Note → String
  | .solving n m size =>
    "Solving " ++ sizeText n m ++ " assignment (padded to " ++ Decimal.digits size ++ ")"
  | .solved n m total =>
    "Solved " ++ sizeText n m ++ ": cost=" ++ Decimal.general 6 total ++ " in " ++ elapsed ++ " ms"

end Note

end Roster
