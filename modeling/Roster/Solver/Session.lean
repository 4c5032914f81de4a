import Roster.Solver.Basic

/-!
# Sessions

A solver is asked again and again. Between two solves it keeps its configuration and a count,
and with attentive users there is a log; a solve may fail at many places, and what it has told
or counted by then stays told and counted. So a solve is written here as the steps that it
takes on the solver and the log, in their order. That it comes to an answer of its input alone
is not built in.

What the library answers is left open, so that it may fail where it likes.

## Main definitions

* `Session`: A solver with its log.
* `Session.Step`: Steps on a session that may fail.
* `Session.search`: The padded search with its notes.
* `Session.solve`: One solve with the solver of a session.
* `Session.solveSized`: A padded search for a declared size.
* `Session.turns`: Some solves in turn.
-/

namespace Roster

/-- A solver with the notes that were told so far. -/
structure Session where
  solver : Solver
  notes : List Note

namespace Session

/-- Steps on a session that may fail. A failure takes back nothing. -/
abbrev Step := ExceptT Fault (StateM Session)

/-- A new solver with an empty log. -/
def start (method : Method) (config : Config) : Session where
  solver := { method := method, config := config, solves := 0 }
  notes := []

/-- A step that has its answer without the session. -/
def settle {α : Type} (answer : Except Fault α) : Step α := ExceptT.mk (pure answer)

/-- Tells a note. -/
def tell (note : Note) : Step Unit :=
  modify fun session => { session with notes := session.notes ++ [note] }

/-- Counts a solve. -/
def count : Step Unit :=
  modify fun session =>
    { session with solver := { session.solver with solves := session.solver.solves + 1 } }

/-- The padded search on a prepared matrix. It tells when it starts and when it has found a
    matching, but not if there is nothing to match. -/
def search (costs : Grid Float) (n m : Nat) (config : Config) : Step (Outcome Float) :=
  let found := settle (searchPrepared .double costs n m (Settings.ofConfig config))
  if n = 0 ∨ m = 0 then found
  else do
    tell (.solving n m (max n m))
    let outcome ← found
    tell (.solved n m outcome.total)
    return outcome

/-- The steps of a method on a prepared matrix of its own size. -/
def solvePrepared (library : Library Float) (method : Method) (costs : Grid Float)
    (config : Config) : Step (Outcome Float) :=
  match method with
  | .padded => search costs costs.height costs.width config
  | method => settle (method.solvePrepared (.doubles library) costs (Settings.ofConfig config))

/-- One solve with the solver of a session. -/
def solve (library : Library Float) (input : CostInput) : Step (Outcome Float) := do
  let solver := (← get).solver
  let costs ← settle (prepare none input solver.config)
  let outcome ← solvePrepared library solver.method costs solver.config
  count
  return outcome

/-- A padded search for a declared size, which no solver counts. -/
def solveSized (n m : Int) (input : CostInput) (config : Config) : Step (Outcome Float) := do
  let costs ← settle (prepare (some (n, m)) input config)
  search costs n.toNat m.toNat config

/-- The solves of some inputs in turn, each with the session after it. -/
def turns (library : Library Float) : List CostInput → Session →
    List (Except Fault (Outcome Float) × Session)
  | [], _ => []
  | input :: rest, session =>
    let turn := (solve library input).run session
    turn :: turns library rest turn.2

end Session

end Roster
