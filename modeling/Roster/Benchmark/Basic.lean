import Roster.Benchmark.Stats
import Roster.Scenario
import Roster.Solver.Basic

/-!
# Solvers Head to Head

Random scenarios are solved by several solvers, and each solver is compared with the
first, the baseline. A solver that is named twice is measured twice in every scenario,
into the same measurements.

The matrices depend on the seed alone and are drawn first; then every solver answers
every matrix, and what the answers mean is a fold over them in order. A time enters
only where an answer is recorded, and only the rows of times in the table depend on it.

## Main definitions

* `Benchmark.Plan`: What is run.
* `Benchmark.scenarios`: The matrices of a plan.
* `Benchmark.Trial`: One answer of one solver.
* `Benchmark.answers`: All answers to the matrices.
* `Benchmark.Board`: The measurements of all solvers.
* `Benchmark.tally`: The measurements of all answers.
* `Benchmark.table`: The printed comparison.
-/

namespace Roster

namespace Benchmark

/-- What is run: how many matrices of which size, from which seed, by which solvers. -/
structure Plan where
  scenarios : Int
  workers : Int
  jobs : Int
  seed : Int
  solvers : List String
  config : Config

/-- The solvers that are run if none are named. -/
def defaultSolvers : List String := ["hungarian", "scipy"]

/-- The solvers of a plan. -/
def Plan.active (plan : Plan) : List String :=
  if plan.solvers.isEmpty then defaultSolvers else plan.solvers

/-- The name of the solver that the others are compared with. -/
def Plan.baseline (plan : Plan) : String := plan.active.headD ""

/-- The methods of a plan by their names. -/
def Plan.methods (plan : Plan) : Except Fault (List (String × Method)) :=
  plan.active.mapM fun name =>
    match Method.ofName? name with
    | some method => .ok (name, method)
    | none => .error (.unknownSolver name)

/-- The matrices of a plan. -/
def scenarios (plan : Plan) : Except Fault (List (Grid Float)) := do
  let generator ← generatorOfSeed plan.seed
  let one : Scenario :=
    { workers := plan.workers, jobs := plan.jobs, maxCost := Scenario.defaultMaxCost,
      tieFraction := 0.0 }
  (Scenario.generateAll (List.replicate plan.scenarios.toNat one) generator).mapM id

/-- One answer of one solver. -/
structure Trial where
  solver : String
  method : Method
  outcome : Outcome Float
  elapsed : Float

/-- The answer of a solver to a matrix, without a time. -/
def trial (library : Library Float) (config : Config) (costs : Grid Float)
    (solver : String × Method) : Except Fault Trial :=
  (solver.2.solve library (.array { shape := [costs.height, costs.width], entries := costs.toList })
    config).map fun outcome =>
      { solver := solver.1, method := solver.2, outcome := outcome, elapsed := 0.0 }

/-- The answers of all solvers to all matrices, matrix by matrix. -/
def answers (library : Library Float) (config : Config) (solvers : List (String × Method))
    (costs : List (Grid Float)) : Except Fault (List (List Trial)) :=
  costs.mapM fun matrix => solvers.mapM (trial library config matrix)

/-- The measurements of all solvers, in the order of their first mention. -/
abbrev Board := List (String × Stats)

namespace Board

/-- No measurements for some solvers. -/
def empty (names : List String) : Board := names.eraseDups.map fun name => (name, Stats.empty)

/-- Changes the measurements of one solver. -/
def update (board : Board) (name : String) (change : Stats → Stats) : Board :=
  board.map fun (other, stats) => (other, if other = name then change stats else stats)

/-- The measurements of one solver. -/
def stats (board : Board) (name : String) : Stats := (board.lookup name).getD Stats.empty

/-- Records a trial against the baseline, or as the baseline. -/
def record (board : Board) (t : Trial) (baseline : Option Trial) : Board :=
  board.update t.solver fun s =>
    s.record t.outcome.answer t.elapsed (baseline.map fun b => b.outcome.answer)

/-- Records the trials of one matrix, of which the first is the baseline. -/
def recordAll (board : Board) : List Trial → Board
  | [] => board
  | base :: others =>
    others.foldl (fun board t => board.record t (some base)) (board.record base none)

end Board

/-- The measurements of all trials. -/
def tally (names : List String) (trials : List (List Trial)) : Board :=
  trials.foldl Board.recordAll (Board.empty names)

/-! ## Messages -/

/-- The greatest distance of two costs that is not worth a warning. -/
def tolerance : Float := 1.0e-6

/-- Something to be told while a benchmark runs. -/
inductive Event where
  | note (trial : Trial) (note : Note)
  | warning (scenario : Nat) (trial baseline : Trial)

/-- The notes of a trial. -/
def trialNotes (costs : Grid Float) (t : Trial) : List Event :=
  match t.method with
  | .padded => (Note.ofOutcome costs.height costs.width t.outcome).map (.note t)
  | _ => []

/-- The warning that a trial calls for. -/
def trialWarning (scenario : Nat) (base t : Trial) : List Event :=
  if tolerance < (t.outcome.total - base.outcome.total).abs then [.warning scenario t base] else []

/-- What is told about the trials of one matrix. -/
def scenarioEvents (scenario : Nat) (costs : Grid Float) : List Trial → List Event
  | [] => []
  | base :: others =>
    trialNotes costs base ++
      others.flatMap fun t => trialNotes costs t ++ trialWarning scenario base t

/-- What is told about all trials. -/
def events (costs : List (Grid Float)) (trials : List (List Trial)) : List Event :=
  ((costs.zip trials).zipIdx.map fun ((matrix, row), k) => scenarioEvents k matrix row).flatten

/-- The text of a warning. -/
def warningText (scenario : Nat) (t base : Trial) : String :=
  "Scenario " ++ Decimal.digits scenario ++ ": " ++ t.solver ++ " cost " ++
    Decimal.fixed 6 t.outcome.total ++ " differs from " ++ base.solver ++ " cost " ++
    Decimal.fixed 6 base.outcome.total

/-! ## The table -/

/-- The width of a column of the table. -/
def columnWidth : Nat := 14

/-- The width of the labels of the rows. -/
def labelWidth : Nat := 30

/-- A text with blanks before it, up to a width. -/
def padLeft (width : Nat) (text : String) : String :=
  String.ofList (List.replicate (width - text.length) ' ') ++ text

/-- A text with blanks behind it, up to a width. -/
def padRight (width : Nat) (text : String) : String :=
  text ++ String.ofList (List.replicate (width - text.length) ' ')

/-- A line of one repeated character. -/
def rule (c : Char) (width : Nat) : String := String.ofList (List.replicate width c)

/-- A row of the table. -/
def row (label : String) (cells : List String) : String :=
  "  " ++ padRight labelWidth label ++ String.join (cells.map (padLeft columnWidth))

/-- The measures of solve times. -/
inductive TimeMeasure where
  | average
  | percentile95
  | greatest

namespace TimeMeasure

/-- The label of a measure. -/
def label : TimeMeasure → String
  | .average => "Avg solve time (ms)"
  | .percentile95 => "P95 solve time (ms)"
  | .greatest => "Max solve time (ms)"

/-- A measure of some times. -/
def value (measure : TimeMeasure) (times : List Float) : Float :=
  match measure with
  | .average => mean times
  | .percentile95 => percentile 95.0 times
  | .greatest => maximum times

end TimeMeasure

/-- The row of a time measure. -/
def timeRow (measure : TimeMeasure) (stats : List Stats) : String :=
  row measure.label (stats.map fun s => Decimal.fixed 2 (measure.value s.times))

/-- The lines above the table. -/
def heading (plan : Plan) : List String :=
  [rule '=' 80, "  Linear Assignment Benchmark", rule '=' 80,
    "  Scenarios: " ++ Decimal.integer plan.scenarios ++ "  |  Workers: " ++
      Decimal.integer plan.workers ++ "  |  Jobs: " ++ Decimal.integer plan.jobs ++
      "  |  Seed: " ++ Decimal.integer plan.seed,
    "  Solvers:   " ++ ", ".intercalate plan.active ++ "  (baseline: " ++ plan.baseline ++ ")",
    ""]

/-- The rows of the measurements. -/
def metricRows (showTimes : TimeMeasure → List Stats → String) (stats : List Stats) :
    List String :=
  [row "Avg total cost" (stats.map fun s => Decimal.fixed 3 (mean (Stats.doubles s.costs))),
    showTimes .average stats, showTimes .percentile95 stats, showTimes .greatest stats,
    row "Max cost gap vs baseline" (stats.map fun s => Decimal.scientific 2 s.gapValue),
    row "Match mismatches" (stats.map fun s => Decimal.digits s.mismatches)]

/-- The whole comparison, where the rows of times are written by `showTimes`. Without a
    scenario there is nothing to measure. -/
def table (showTimes : TimeMeasure → List Stats → String) (plan : Plan) (board : Board) :
    List String :=
  heading plan ++
    [row "Metric" plan.active,
      "  " ++ rule '─' (labelWidth + columnWidth * plan.active.length)] ++
    (if 0 < plan.scenarios then metricRows showTimes (plan.active.map board.stats) else []) ++
    ["", rule '=' 80]

/-! ## A whole run -/

/-- What a run has found. -/
structure Result where
  board : Board
  events : List Event

/-- Runs a plan without measuring times. An unknown solver is refused before anything is
    drawn. -/
def run (library : Library Float) (plan : Plan) : Except Fault Result := do
  let solvers ← plan.methods
  let costs ← scenarios plan
  let trials ← answers library plan.config solvers costs
  return { board := tally plan.active trials, events := events costs trials }

end Benchmark

end Roster
