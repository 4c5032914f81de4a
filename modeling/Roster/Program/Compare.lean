import Roster.Benchmark.Basic
import Roster.Loading
import Roster.Program.Assign

/-!
# The Benchmark Program

Runs the solvers on random problems and prints the comparison. Warnings are always
logged, the notes of the padded search only on request. Whatever goes wrong behind the
command line ends the program with the fault.

## Main definitions

* `Compare.Request`: What the command line asks for.
* `Compare.plan`: The benchmark of a request.
* `Compare.run`: The program.
* `Compare.places`: Where the program may look.
-/

namespace Roster

namespace Program

namespace Compare

/-- What the command line asks for. -/
structure Request where
  scenarios : Int
  workers : Int
  jobs : Int
  seed : Int
  config : String
  solvers : List String
  verbose : Bool

/-- The options. -/
def specs : List OptionSpec :=
  [.help, .whole "--scenarios", .whole "--workers", .whole "--jobs", .whole "--seed",
    .text "--config", .choice "--solvers" .several (Method.all.map Method.name),
    .flag "--verbose"]

/-- The whole number of an option, or its default. -/
def number (chosen : List Chosen) (name : String) (otherwise : Int) : Int :=
  ((lastValue? chosen name).bind Whole.read?).getD otherwise

/-- The request in a command line. -/
def Request.ofWords (words : List String) : Except Refusal Request :=
  (parseOptions specs words).map fun chosen =>
    { scenarios := number chosen "--scenarios" 50
      workers := number chosen "--workers" 30
      jobs := number chosen "--jobs" 20
      seed := number chosen "--seed" 42
      config := (lastValue? chosen "--config").getD ""
      solvers := (lastValues? chosen "--solvers").getD []
      verbose := isChosen chosen "--verbose" }

/-- The name and the help text. -/
def guide : Guide where
  name := "benchmark.py"
  help :=
    let methods := choiceText (Method.all.map Method.name)
    let several := "--solvers " ++ methods ++ " [" ++ methods ++ " ...]"
    ["usage: benchmark.py [-h] [--scenarios SCENARIOS] [--workers WORKERS]",
      "                    [--jobs JOBS] [--seed SEED] [--config CONFIG]",
      "                    [" ++ several ++ "]",
      "                    [--verbose]",
      "",
      "Benchmark linear assignment solvers",
      "",
      "options:",
      "  -h, --help            show this help message and exit",
      "  --scenarios SCENARIOS",
      "  --workers WORKERS",
      "  --jobs JOBS",
      "  --seed SEED",
      "  --config CONFIG       Solver config YAML",
      "  " ++ several,
      "                        Solvers to compare; the first is the baseline",
      "                        (default: hungarian scipy)",
      "  --verbose             Enable debug logging"]

/-- The benchmark of a request. -/
def plan (look : Location → Entry) (request : Request) : Except Fault Benchmark.Plan := do
  let config ← if request.config.isEmpty then pure Config.default
    else Config.load look (Location.ofString request.config)
  return {
    scenarios := request.scenarios
    workers := request.workers
    jobs := request.jobs
    seed := request.seed
    solvers := request.solvers
    config := config }

/-- The source of the warnings in the log. -/
def warningSource : String := "__main__"

/-- An event in the log. -/
def eventOutput (verbose : Bool) : Benchmark.Event → Output
  | .note trial note =>
    if verbose then
      Assign.logLine "DEBUG" Assign.solverSource (Assign.noteOutput (some trial.elapsed) note)
    else []
  | .warning k t base =>
    Assign.logLine "WARNING" warningSource [.text (Benchmark.warningText k t base)]

/-- What a benchmark writes. -/
def console (showTimes : Benchmark.TimeMeasure → List Stats → String) (verbose : Bool)
    (plan : Benchmark.Plan) (result : Benchmark.Result) : Console where
  out := Output.lines (Benchmark.table showTimes plan result.board)
  err := result.events.flatMap (eventOutput verbose)

/-- The program for a command line: its code and its output, where `look` tells what stands
    at a place and `showTimes` writes the rows of times. -/
def run (library : Library Float) (showTimes : Benchmark.TimeMeasure → List Stats → String)
    (look : Location → Entry) (words : List String) : Except Fault (Nat × Console) :=
  match Request.ofWords words with
  | .error refusal => .ok (guide.refuse refusal)
  | .ok request => do
    let plan ← plan look request
    let result ← Benchmark.run library plan
    return (Guide.successCode, console showTimes request.verbose plan result)

/-- The places at which the program may look for a command line. -/
def places (words : List String) : List Location :=
  match Request.ofWords words with
  | .error _ => []
  | .ok request => [Location.ofString request.config]

end Compare

end Program

end Roster
