import Roster.Figure.Basic
import Roster.Figure.Formula
import Roster.Figure.Picture
import Roster.Loading
import Roster.Program.Usage
import Roster.Report
import Roster.Solver.Basic

/-!
# The Assignment Program

Solves one problem from a file, or a built-in one, and prints the report; on request it
saves a figure. A bad matrix or a missing file is reported, and the program ends with a
code of failure. A bad configuration, misuse, and what goes wrong while the report or
the figure is made end it with the fault itself.

## Main definitions

* `Assign.Request`: What the command line asks for.
* `Assign.Answer`: What the program leaves behind.
* `Assign.run`: The program.
* `Assign.places`: Where the program may look.
-/

namespace Roster

namespace Program

namespace Assign

/-- What the command line asks for. -/
structure Request where
  config : String
  matrix : String
  solver : String
  plot : String
  verbose : Bool

/-- The options. -/
def specs : List OptionSpec :=
  [.help, .text "--config", .text "--matrix",
    .choice "--solver" .one (Method.all.map Method.name), .text "--plot", .flag "--verbose"]

/-- The configuration file that is read if none is named. -/
def defaultConfig : String := "config/default_solver.yaml"

/-- The request in a command line. -/
def Request.ofWords (words : List String) : Except Refusal Request :=
  (parseOptions specs words).map fun chosen =>
    { config := (lastValue? chosen "--config").getD defaultConfig
      matrix := (lastValue? chosen "--matrix").getD ""
      solver := (lastValue? chosen "--solver").getD Method.padded.name
      plot := (lastValue? chosen "--plot").getD ""
      verbose := isChosen chosen "--verbose" }

/-- The name and the help text. -/
def guide : Guide where
  name := "run_assignment.py"
  help :=
    let methods := choiceText (Method.all.map Method.name)
    ["usage: run_assignment.py [-h] [--config CONFIG] [--matrix MATRIX]",
      "                         [--solver " ++ methods ++ "]",
      "                         [--plot PLOT] [--verbose]",
      "",
      "Solve a rectangular assignment problem",
      "",
      "options:",
      "  -h, --help            show this help message and exit",
      "  --config CONFIG       Path to solver config YAML",
      "  --matrix MATRIX       Cost matrix file (.csv or .yaml); defaults to the",
      "                        built-in 3x4 sample",
      "  --solver " ++ methods,
      "                        Solver to use",
      "  --plot PLOT           Save a heatmap PNG to this path",
      "  --verbose             Enable debug logging"]

/-- The built-in problem: three workers and four jobs. -/
def sample : List (List Float) :=
  [[9.0, 2.5, 7.1, 8.3], [6.2, 4.8, 3.0, 7.9], [5.0, 8.1, 1.5, 8.7]]

/-- The built-in problem as an input. -/
def sampleInput : CostInput :=
  .rows (.list (sample.map fun row => .list (row.map fun x => .number (.real x))))

/-- A figure, the place where it is saved, and the format of the file. -/
structure Saved where
  place : Location
  format : String
  figure : Figure

/-- What the program leaves behind. -/
structure Answer where
  code : Nat
  console : Console
  saved : Option Saved

/-- The code of a problem that was not solved. -/
def failureCode : Nat := 1

/-- The configuration at a place, or the default one if nothing stands there, and what is
    said about it. -/
def readConfig (look : Location → Entry) (place : Location) : Except Fault (Config × String) :=
  let absent := .ok (Config.default, "Config " ++ place.toString ++ " not found, using defaults")
  match look place with
  | .missing => absent
  | .blocked => absent
  | .unspeakable => absent
  | .overlong => .error (.overlongName place.toString)
  | _ => (Config.load look place).map fun c => (c, "Loaded config from " ++ place.toString)

/-- The matrix that is asked for. -/
def readMatrix (look : Location → Entry) (path : String) : Except Fault CostMatrix :=
  if path.isEmpty then CostMatrix.build sampleInput .null .null
  else CostMatrix.load look (Location.ofString path)

/-- A matrix with the outcome for it. -/
structure Solved where
  matrix : CostMatrix
  outcome : Outcome Float

/-- Solves a matrix with a solver by its name. -/
def solveMatrix (library : Library Float) (solverName : String) (config : Config)
    (matrix : CostMatrix) : Except Fault Solved := do
  let solver ← Solver.create solverName config
  let outcome ← (solver.solve library (CostMatrix.gridInput matrix.costs)).1
  return { matrix := matrix, outcome := outcome }

/-- Reads a matrix and solves it. -/
def loadAndSolve (library : Library Float) (look : Location → Entry) (path solverName : String)
    (config : Config) : Except Fault Solved := do
  let matrix ← readMatrix look path
  solveMatrix library solverName config matrix

/-- A line of the log. -/
def logLine (level source : String) (message : Output) : Output :=
  [.stamp, .text (" " ++ level ++ " " ++ source ++ ": ")] ++ message ++ [.text "\n"]

/-- A note with a gap for its time. -/
def noteOutput (measured : Option Float) : Note → Output
  | .solving n m size => [.text ((Note.solving n m size).text "")]
  | .solved n m total =>
    [.text ("Solved " ++ Note.sizeText n m ++ ": cost=" ++ Decimal.general 6 total ++ " in "),
      .elapsed measured, .text " ms"]

/-- The source of a solver's notes in the log. -/
def solverSource : String := "src.assignment.solver"

/-- The notes of a solve in the log, which only the padded search writes. -/
def notes (request : Request) (solved : Solved) : Output :=
  if request.verbose && request.solver == Method.padded.name then
    (Note.ofOutcome solved.matrix.costs.height solved.matrix.costs.width solved.outcome).flatMap
      fun note => logLine "DEBUG" solverSource (noteOutput none note)
  else []

/-- The line above the report, with empty lines around it. -/
def headline (request : Request) (solved : Solved) : Output :=
  [.text ("\nSolved " ++
      Note.sizeText solved.matrix.costs.height solved.matrix.costs.width ++ " with " ++
      request.solver ++ " (" ++ solved.outcome.status.name ++ ", "),
    .elapsed none, .text " ms)\n\n"]

/-- Where a figure asked for at a path is saved, and in which format: a name without an ending
    gets one. -/
def figurePlace (path : String) : Except Fault (Location × String) := do
  let name := ((path.splitOn "/").getLastD "").toList.dropWhile (· == '.')
  let ending := (name.reverse.takeWhile (· != '.')).reverse
  if !name.contains '.' || ending.isEmpty then
    let bare := (path.toList.reverse.dropWhile (· == '.')).reverse
    return (Location.ofString (String.ofList bare ++ "." ++ Picture.defaultFormat),
      Picture.defaultFormat)
  else return (Location.ofString path, ← Picture.ofEnding ending)

/-- The figure that is asked for and its place. The formulas in its texts have to be readable,
    and a file has to be possible there. -/
def figure (renderer : Figure.Renderer) (look : Location → Entry) (path : String)
    (solved : Solved) : Except Fault Saved := do
  let drawn ← Figure.draw renderer (CostMatrix.gridInput solved.matrix.costs) solved.outcome.summary
    { Figure.Wishes.none with
      workers := .list solved.matrix.workerIds
      jobs := .list solved.matrix.jobIds }
  drawn.texts.forM Formula.check
  let (place, format) ← figurePlace path
  match look place, look place.parent with
  | .directory, _ => throw (.isDirectory place.toString)
  | .unspeakable, _ => throw .nullInPath
  | .overlong, _ => throw (.overlongName place.toString)
  | _, .directory => return { place := place, format := format, figure := drawn }
  | _, .missing => throw (.missingFile place.toString)
  | _, _ => throw (.notDirectory place.toString)

/-- The program for a request. -/
def runRequest (library : Library Float) (renderer : Figure.Renderer) (look : Location → Entry)
    (request : Request) : Except Fault Answer := do
  let (config, announcement) ← readConfig look (Location.ofString request.config)
  let announced := Console.ofOut (Output.line announcement)
  match loadAndSolve library look request.matrix request.solver config with
  | .error fault =>
    if fault.isReportable then
      return {
        code := failureCode
        console := announced ++ Console.ofErr (Output.line ("Error: " ++ fault.message))
        saved := none }
    else throw fault
  | .ok solved =>
    let report ← Report.ofMatrix solved.matrix solved.outcome
    let shown := announced ++ Console.ofErr (notes request solved) ++
      Console.ofOut (headline request solved ++ Output.line report)
    if request.plot.isEmpty then return { code := 0, console := shown, saved := none }
    else
      let saved ← figure renderer look request.plot solved
      return {
        code := 0
        console := shown ++ Console.ofOut (Output.line ("\nSaved plot to " ++ request.plot))
        saved := some saved }

/-- The program for a command line, where `look` tells what stands at a place. The library and
    the renderer are those that it is run with. -/
def run (library : Library Float) (renderer : Figure.Renderer) (look : Location → Entry)
    (words : List String) : Except Fault Answer :=
  match Request.ofWords words with
  | .error refusal =>
    let (code, console) := guide.refuse refusal
    .ok { code := code, console := console, saved := none }
  | .ok request => runRequest library renderer look request

/-- The places at which the program may look for a command line. -/
def places (words : List String) : List Location :=
  match Request.ofWords words with
  | .error _ => []
  | .ok request =>
    let saved := (figurePlace request.plot).toOption.elim [] fun (place, _) =>
      [place, place.parent]
    Location.ofString request.config ::
      CostMatrix.places (Location.ofString request.matrix) ++ saved

end Assign

end Program

end Roster
