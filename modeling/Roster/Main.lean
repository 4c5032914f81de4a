import Roster.Figure.Png
import Roster.Program.Compare
import Roster.Solver.Reference

/-!
# Command Line

Carries out the programs: looks at the files that a command line names, measures times,
shows what a program has written, and saves its figure. The first word `benchmark`
chooses the benchmark, which gets the other words; without it the words go to the
assignment program. What a program does is not decided here.

Lines of the log carry the seconds of a running clock in place of a date. Of the formats of a
figure only the default one is written here.
-/

namespace Roster

namespace Main

/-- What stands at a place. -/
def survey (place : Location) : IO Entry := do
  let directoryCode : UInt32 := 21
  let nullCode : UInt32 := 22
  try
    return .file (← IO.FS.readFile place.toString)
  catch
    | .noFileOrDirectory _ _ _ => return .missing
    | .inappropriateType _ code _ => return (if code == directoryCode then .directory else .blocked)
    | .invalidArgument _ code _ => return (if code == nullCode then .unspeakable else .overlong)
    | other => throw other

/-- What stands at some places, and nothing anywhere else. -/
def surveyAll (places : List Location) : IO (Location → Entry) := do
  let found ← places.mapM fun place => return (place, ← survey place)
  return fun place => (found.lookup place).getD .missing

/-- A value with the milliseconds that it took to compute. -/
def timed {α : Type} (compute : Unit → α) : IO (α × Float) := do
  let start ← IO.monoNanosNow
  let value ← IO.lazyPure compute
  let stop ← IO.monoNanosNow
  return (value, Float.ofNat (stop - start) / 1.0e6)

/-- Shows what was written on both streams. -/
def write (console : Program.Console) (elapsed : Float) : IO Unit := do
  let stamp := Decimal.fixed 3 (Float.ofNat (← IO.monoMsNow) / 1000.0)
  let time (measured : Option Float) := Decimal.fixed 2 (measured.getD elapsed)
  (← IO.getStderr).putStr (console.err.render time stamp)
  (← IO.getStdout).putStr (console.out.render time stamp)

/-- Tells of a fault that no program answers. -/
def fail (fault : Fault) : IO UInt32 := do
  (← IO.getStderr).putStrLn fault.message
  return Program.Assign.failureCode.toUInt32

/-- Saves a figure in the default format. -/
def save (saved : Program.Assign.Saved) : IO Unit := do
  if saved.format == Picture.defaultFormat then
    let bytes := Png.encode (Raster.ofFigure saved.figure)
    IO.FS.writeBinFile saved.place.toString (ByteArray.mk bytes.toArray)
  else
    throw (IO.userError ("no file of the format " ++ saved.format ++ " is made here"))

/-- Runs the assignment program. -/
def runAssignment (words : List String) : IO UInt32 := do
  let look ← surveyAll (Program.Assign.places words)
  let (answer, elapsed) ← timed fun _ =>
    Program.Assign.run Reference.library Figure.boundless look words
  match answer with
  | .error fault => fail fault
  | .ok answer =>
    answer.saved.forM save
    write answer.console elapsed
    return answer.code.toUInt32

/-- The trials of all solvers on all matrices, with their times. -/
def trials (config : Config) (solvers : List (String × Method)) (costs : List (Grid Float)) :
    IO (Except Fault (List (List Benchmark.Trial))) :=
  ExceptT.run do
    costs.mapM fun matrix => solvers.mapM fun solver => do
      let (answer, elapsed) ← timed fun _ =>
        Benchmark.trial Reference.library config matrix solver
      let trial ← ExceptT.mk (pure answer)
      return { trial with elapsed := elapsed }

/-- Runs a plan with times, and shows what it found. -/
def runPlan (verbose : Bool) (plan : Benchmark.Plan) : IO UInt32 := do
  let prepared : Except Fault _ := do
    let solvers ← plan.methods
    let costs ← Benchmark.scenarios plan
    return (solvers, costs)
  match prepared with
  | .error fault => fail fault
  | .ok (solvers, costs) =>
    match ← trials plan.config solvers costs with
    | .error fault => fail fault
    | .ok trials =>
      let result : Benchmark.Result :=
        { board := Benchmark.tally plan.active trials, events := Benchmark.events costs trials }
      write (Program.Compare.console Benchmark.timeRow verbose plan result) 0.0
      return Program.Guide.successCode.toUInt32

/-- Runs the benchmark program. -/
def runBenchmark (words : List String) : IO UInt32 := do
  match Program.Compare.Request.ofWords words with
  | .error refusal =>
    let (code, console) := Program.Compare.guide.refuse refusal
    write console 0.0
    return code.toUInt32
  | .ok request =>
    let look ← surveyAll (Program.Compare.places words)
    match Program.Compare.plan look request with
    | .error fault => fail fault
    | .ok plan => runPlan request.verbose plan

end Main

end Roster

/-- Runs the program that the words ask for. -/
def main (words : List String) : IO UInt32 :=
  match words with
  | "benchmark" :: others => Roster.Main.runBenchmark others
  | words => Roster.Main.runAssignment words
