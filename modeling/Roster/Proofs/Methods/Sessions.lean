import Roster.Solver.Session
import Roster.Proofs.Cost.Rows

/-!
# Solves in Turn

A solver is worth no more than its last configuration: what it was asked before, and how that
went, shows in its count and in the log and nowhere else. For one solve this means that all of
its steps together do two things to a session, whatever the session is; for many it follows by
induction over the inputs.

The padded search can be had in two ways, with a declared size and with the size of the input.
Inputs without entries are what they differ on: there a declared size decides. But a size that
an input has already is no other size if it is declared, so both ways come to one answer and
tell the same.

A search that does not end is an answer here like any other failure.

## Main definitions

* `Session.answer`: What a method answers and tells to an input.
* `Session.after`: What an answer leaves of a session.
* `CostInput.IsHeld`: An input whose array can be there.

## Theorems

* `Session.run_solve`: One solve depends on the input, the method and the configuration.
* `CostInput.toGrid_declared`: To declare the size that an input has changes nothing.
* `Session.getElem?_turns`: Each solve of a session by its input alone.
* `Session.turns_independent`: Sessions are sequences of independent solves.
-/

namespace Roster

/-! ### Declared sizes -/

namespace CostInput

/-- An input that exists. An array is one of the arrays that there can be; rows are no array
    yet. -/
def IsHeld : CostInput → Prop
  | .array tensor => Grid.isHoldable tensor.shape = true
  | .rows _ => True

section Declared

variable {data : Datum} {tensor : Tensor} {costs : Grid Float} {input : CostInput}

/-- The width that is declared matters to rows only if there are none, and then it is their
    width. -/
theorem rowTensor_declared {height width : Nat} (h : rowTensor data 0 = .ok tensor)
    (hshape : tensor.shape = [height, width]) :
    rowTensor data width = .ok tensor ∧ Grid.isHoldable tensor.shape = true := by
  rw [rowTensor_eq] at h
  rcases bind_eq_ok_iff.mp h with ⟨rows, hrows, h⟩
  by_cases hragged : 1 < (distinctWidths rows).length
  · simp only [if_pos hragged] at h
    exact absurd h nofun
  simp only [if_neg hragged] at h
  rcases bind_eq_ok_iff.mp h with ⟨found, hfound, h⟩
  rcases reshape_ok h with ⟨hhold, hown⟩
  -- Without rows the width is the declared one in both cases, and the shape tells that it is zero.
  have hwide : givenWidth width (distinctWidths rows) = givenWidth 0 (distinctWidths rows) := by
    cases hwidths : distinctWidths rows with
    | nil =>
        rw [hown, hwidths] at hshape
        rcases List.cons.inj hshape with ⟨_, hshape⟩
        rw [← (List.cons.inj hshape).1]
        rfl
    | cons w others => rfl
  refine ⟨?_, hhold⟩
  rw [rowTensor_eq, hrows]
  simp only [Except.bind, if_neg hragged, hfound, hwide]
  exact h

/-- A table that comes without a declared size has the shape and the entries of its array. -/
theorem tensorGrid_ok (h : tensorGrid tensor none none = .ok costs) :
    tensor.shape = [costs.height, costs.width] ∧
      Grid.ofList? costs.height costs.width tensor.entries = some costs := by
  unfold tensorGrid at h
  rw [if_neg (by simp)] at h
  split at h
  swap
  · exact absurd h nofun
  rename_i height width hshape
  split at h
  swap
  · exact absurd h nofun
  rename_i g hg
  rcases Except.ok.inj h with rfl
  rcases Grid.size_of_ofList? hg with ⟨rfl, rfl⟩
  exact ⟨hshape, hg⟩

/-- To declare the size that an array has changes nothing. -/
theorem tensorGrid_declared (hhold : Grid.isHoldable tensor.shape = true)
    (h : tensorGrid tensor none none = .ok costs) :
    tensorGrid tensor (some costs.height) (some costs.width) = .ok costs := by
  rcases tensorGrid_ok h with ⟨hshape, hcells⟩
  rw [hshape] at hhold
  unfold tensorGrid
  split
  · -- Without entries the declared size decides, and it is the same.
    rename_i hempty
    have hfine : ¬ ((costs.height : Int) < 0 ∨ (costs.width : Int) < 0 ∨
        (!Grid.isHoldable [costs.height, costs.width]) = true) := by
      rw [hhold]
      simp only [Bool.not_true, Bool.false_eq_true, or_false]
      omega
    rw [List.isEmpty_iff.mp hempty.1] at hcells
    simp only [Option.getD_some, declaredGrid, Int.toNat_natCast, if_neg hfine, hcells]
  · rw [hshape]
    simp only [hcells]

/-- To declare the size that an input has changes nothing. -/
theorem toGrid_declared (hheld : input.IsHeld) (h : input.toGrid none none = .ok costs) :
    input.toGrid (some costs.height) (some costs.width) = .ok costs := by
  cases input with
  | array tensor => exact tensorGrid_declared hheld h
  | rows data =>
      rcases bind_eq_ok_iff.mp h with ⟨tensor, htensor, hgrid⟩
      rcases rowTensor_declared htensor (tensorGrid_ok hgrid).1 with ⟨hdeclared, hhold⟩
      exact bind_eq_ok_iff.mpr ⟨tensor, hdeclared, tensorGrid_declared hhold hgrid⟩

/-- A check with the declared size is a check without one. -/
theorem prepare_declared {config : Config} (hheld : input.IsHeld)
    (h : input.toGrid none none = .ok costs) :
    prepare (some (costs.height, costs.width)) input config = prepare none input config := by
  have hdeclared : Cost.checkDeclared costs.height costs.width = .ok () := by
    rw [Cost.checkDeclared, if_neg (by omega)]
  rw [prepare, prepare]
  simp only [hdeclared, Option.map_some, Option.map_none, h, toGrid_declared hheld h]
  rfl

theorem prepare_eq_toGrid {config : Config} {found : Grid Float}
    (h : prepare none input config = .ok found) (hgrid : input.toGrid none none = .ok costs) :
    found = costs := by
  rw [prepare] at h
  simp only [Option.map_none, hgrid] at h
  rcases bind_eq_ok_iff.mp h with ⟨other, hother, h⟩
  rcases Except.ok.inj hother with rfl
  -- Checked or not, it is the table of the input that is handed on.
  split at h
  · rcases bind_eq_ok_iff.mp h with ⟨_, _, h⟩
    exact (Except.ok.inj h).symm
  · exact (Except.ok.inj h).symm

end Declared

end CostInput

namespace Session

/-! ### One solve -/

section Steps

variable {α β : Type} {x : Step α} {f : α → Step β} {session next : Session}

theorem run_bind_ok {a : α} (h : x.run session = (.ok a, next)) :
    (x >>= f).run session = (f a).run next := by
  change (ExceptT.bind x f).run session = _
  simp only [ExceptT.run] at h
  simp only [ExceptT.run, ExceptT.bind, ExceptT.mk, bind, StateT.bind, h, ExceptT.bindCont]

theorem run_bind_error {e : Fault} (h : x.run session = (.error e, next)) :
    (x >>= f).run session = (.error e, next) := by
  change (ExceptT.bind x f).run session = _
  simp only [ExceptT.run] at h
  simp only [ExceptT.run, ExceptT.bind, ExceptT.mk, bind, StateT.bind, h, ExceptT.bindCont]
  rfl

theorem run_settle (answer : Except Fault α) (session : Session) :
    (settle answer).run session = (answer, session) := rfl

theorem run_tell (note : Note) (session : Session) :
    (tell note).run session = (.ok (), { session with notes := session.notes ++ [note] }) := rfl

theorem run_count (session : Session) : count.run session = (.ok (), { session with
    solver := { session.solver with solves := session.solver.solves + 1 } }) := rfl

theorem run_pure (a : α) (session : Session) :
    (pure a : Step α).run session = (.ok a, session) := rfl

theorem run_get (session : Session) :
    (get : Step Session).run session = (.ok session, session) := rfl

end Steps

/-- What a padded search tells, if it comes to an answer. -/
def searchNotes (n m : Nat) (answer : Except Fault (Outcome Float)) : List Note :=
  if n = 0 ∨ m = 0 then []
  else
    match answer with
    | .ok outcome => [.solving n m (max n m), .solved n m outcome.total]
    | .error _ => [.solving n m (max n m)]

theorem searchNotes_vacant {n m : Nat} {answer : Except Fault (Outcome Float)}
    (h : n = 0 ∨ m = 0) : searchNotes n m answer = [] := if_pos h

theorem searchNotes_ok (n m : Nat) (outcome : Outcome Float) :
    searchNotes n m (.ok outcome) = Note.ofOutcome n m outcome := rfl

theorem run_search {costs : Grid Float} {n m : Nat} {config : Config}
    {answer : Except Fault (Outcome Float)} (session : Session)
    (h : searchPrepared .double costs n m (Settings.ofConfig config) = answer) :
    (search costs n m config).run session =
      (answer, { session with notes := session.notes ++ searchNotes n m answer }) := by
  rw [search, h]
  by_cases hempty : n = 0 ∨ m = 0
  · rw [if_pos hempty, run_settle, searchNotes_vacant hempty, List.append_nil]
  -- One note before the search and one behind it, which is missing if the search fails.
  · unfold searchNotes
    rw [if_neg hempty, if_neg hempty, run_bind_ok (run_tell _ _)]
    cases answer with
    | error fault => rw [run_bind_error (run_settle _ _)]
    | ok outcome =>
        rw [run_bind_ok (run_settle _ _), run_bind_ok (run_tell _ _), run_pure, List.append_assoc]
        rfl

/-- What a method on a prepared matrix tells, if it comes to an answer. -/
def methodNotes (method : Method) (costs : Grid Float) (answer : Except Fault (Outcome Float)) :
    List Note :=
  match method with
  | .padded => searchNotes costs.height costs.width answer
  | _ => []

theorem run_solvePrepared {library : Library Float} {method : Method} {costs : Grid Float}
    {config : Config} {answer : Except Fault (Outcome Float)} (session : Session)
    (h : method.solvePrepared (.doubles library) costs (Settings.ofConfig config) = answer) :
    (solvePrepared library method costs config).run session =
      (answer, { session with notes := session.notes ++ methodNotes method costs answer }) := by
  cases method with
  | padded => exact run_search session h
  | exact => simp only [solvePrepared, h, run_settle, methodNotes, List.append_nil]
  | scaled => simp only [solvePrepared, h, run_settle, methodNotes, List.append_nil]
  | exhaustive => simp only [solvePrepared, h, run_settle, methodNotes, List.append_nil]

/-- The answer to an input and what is told on the way to it, by a method with a
    configuration. -/
def answer (library : Library Float) (method : Method) (config : Config) (input : CostInput) :
    Except Fault (Outcome Float) × List Note :=
  match prepare none input config with
  | .error fault => (.error fault, [])
  | .ok costs =>
    let found := method.solvePrepared (.doubles library) costs (Settings.ofConfig config)
    (found, methodNotes method costs found)

/-- What one solve does to a session: it counts if there is an outcome, and tells. -/
def after (session : Session) (answer : Except Fault (Outcome Float) × List Note) : Session where
  solver := { session.solver with
    solves := session.solver.solves + if answer.1.isOk then 1 else 0 }
  notes := session.notes ++ answer.2

/-- One solve answers as its input, its method and its configuration say, whatever else the
    session holds. -/
theorem run_solve (library : Library Float) (input : CostInput) (session : Session) :
    (solve library input).run session =
      ((answer library session.solver.method session.solver.config input).1,
        session.after (answer library session.solver.method session.solver.config input)) := by
  rw [solve, run_bind_ok (run_get session), answer]
  cases hprepare : prepare none input session.solver.config with
  | error fault =>
      simp only [hprepare]
      rw [run_bind_error (run_settle _ _)]
      simp only [after, Except.isOk, Except.toBool, Bool.false_eq_true, if_false, Nat.add_zero,
        List.append_nil]
  | ok costs =>
      simp only [hprepare]
      rw [run_bind_ok (run_settle _ _)]
      -- Only an outcome is counted. A fault has left its notes, and the session goes on with them.
      generalize hfound : session.solver.method.solvePrepared (.doubles library) costs
        (Settings.ofConfig session.solver.config) = found
      cases found with
      | error fault =>
          rw [run_bind_error (run_solvePrepared session hfound)]
          rfl
      | ok outcome =>
          rw [run_bind_ok (run_solvePrepared session hfound), run_bind_ok (run_count _), run_pure]
          rfl

/-- The answer to an input for a declared size and what is told on the way to it. -/
def sizedAnswer (n m : Int) (config : Config) (input : CostInput) :
    Except Fault (Outcome Float) × List Note :=
  match prepare (some (n, m)) input config with
  | .error fault => (.error fault, [])
  | .ok costs =>
    let found := searchPrepared .double costs n.toNat m.toNat (Settings.ofConfig config)
    (found, searchNotes n.toNat m.toNat found)

/-- A padded search for a declared size answers and tells, and counts nothing. -/
theorem run_solveSized (n m : Int) (input : CostInput) (config : Config) (session : Session) :
    (solveSized n m input config).run session =
      ((sizedAnswer n m config input).1,
        { session with notes := session.notes ++ (sizedAnswer n m config input).2 }) := by
  rw [solveSized, sizedAnswer]
  cases hprepare : prepare (some (n, m)) input config with
  | error fault =>
      rw [run_bind_error (run_settle _ _)]
      simp only [List.append_nil]
  | ok costs =>
      rw [run_bind_ok (run_settle _ _)]
      exact run_search session rfl

theorem fst_sizedAnswer (n m : Int) (config : Config) (input : CostInput) :
    (sizedAnswer n m config input).1 = Roster.solve n m input config := by
  rw [sizedAnswer, Roster.solve]
  cases prepare (some (n, m)) input config with
  | error fault => rfl
  | ok costs => rfl

theorem snd_sizedAnswer {n m : Int} {config : Config} {input : CostInput}
    {outcome : Outcome Float} (h : (sizedAnswer n m config input).1 = .ok outcome) :
    (sizedAnswer n m config input).2 = Note.ofOutcome n.toNat m.toNat outcome := by
  rw [sizedAnswer] at h ⊢
  cases hprepare : prepare (some (n, m)) input config with
  | error fault =>
      rw [hprepare] at h
      exact absurd h nofun
  | ok costs =>
      simp only [hprepare] at h ⊢
      rw [h, searchNotes_ok]

theorem fst_answer (library : Library Float) (method : Method) (config : Config)
    (input : CostInput) :
    (answer library method config input).1 = method.solve library input config := by
  rw [answer, Method.solve]
  cases prepare none input config with
  | error fault => rfl
  | ok costs => rfl

/-- The padded search with the size of an input answers and tells as with that size declared. -/
theorem answer_padded {library : Library Float} {config : Config} {input : CostInput}
    {costs : Grid Float} (hheld : input.IsHeld) (h : input.toGrid none none = .ok costs) :
    answer library .padded config input =
      sizedAnswer costs.height costs.width config input := by
  rw [answer, sizedAnswer, CostInput.prepare_declared hheld h]
  cases hprepare : prepare none input config with
  | error fault => rfl
  | ok found =>
      rw [show found = costs from CostInput.prepare_eq_toGrid hprepare h]
      rfl

/-! ### Many solves -/

/-- The solve of each input comes to the answer for that input, and leaves the count and the log
    of all inputs up to it. -/
theorem getElem?_turns (library : Library Float) (inputs : List CostInput) (session : Session)
    (k : Nat) :
    (turns library inputs session)[k]? = inputs[k]?.map fun input =>
      let found := answer library session.solver.method session.solver.config
      ((found input).1,
        { solver := { session.solver with
            solves := session.solver.solves +
              (inputs.take (k + 1)).countP fun i => (found i).1.isOk }
          notes := session.notes ++ (inputs.take (k + 1)).flatMap fun i => (found i).2 }) := by
  induction inputs generalizing session k with
  | nil => rfl
  | cons input rest ih =>
      rw [turns, run_solve]
      cases k with
      | zero => simp [after, List.countP_cons]
      | succ k =>
          -- The rest is answered as from the start, with what this input leaves.
          rw [List.getElem?_cons_succ, ih, List.getElem?_cons_succ]
          simp only [after, List.take_succ_cons, List.countP_cons, List.flatMap_cons,
            List.append_assoc, Nat.add_assoc, Nat.add_comm (List.countP _ _)]

theorem map_fst_turns (library : Library Float) (inputs : List CostInput) (session : Session) :
    (turns library inputs session).map Prod.fst =
      inputs.map fun input =>
        (answer library session.solver.method session.solver.config input).1 := by
  induction inputs generalizing session with
  | nil => rfl
  | cons input rest ih =>
      rw [turns, run_solve, List.map_cons, ih]
      rfl

/-- A session answers and counts as its solver does. -/
theorem turns_eq_solveAll (library : Library Float) (inputs : List CostInput)
    (session : Session) :
    (turns library inputs session).map (fun turn => (turn.1, turn.2.solver.solves)) =
      session.solver.solveAll library inputs := by
  induction inputs generalizing session with
  | nil => rfl
  | cons input rest ih =>
      -- A solver on its own answers and counts as its session does, and tells nothing.
      have hsolve : session.solver.solve library input =
          ((answer library session.solver.method session.solver.config input).1,
            (session.after (answer library session.solver.method
              session.solver.config input)).solver) := by
        rw [Solver.solve, ← fst_answer, after]
        cases (answer library session.solver.method session.solver.config input).1 with
        | error fault => rfl
        | ok outcome => rfl
      rw [turns, run_solve, List.map_cons, ih, Solver.solveAll, hsolve]

/-- A session of a new solver, with whatever library, is a sequence of solves that are
    independent of each other: each answers and tells as it would alone, the configuration
    stays, and the answers that are no failures are counted. The padded search answers and tells
    as for a declared size, whenever the input has that size. -/
theorem turns_independent (library : Library Float) (method : Method) (config : Config)
    (inputs : List CostInput) :
    Solver.create method.name config = .ok (start method config).solver ∧
    (turns library inputs (start method config)).length = inputs.length ∧
    (∀ k turn, (turns library inputs (start method config))[k]? = some turn → ∃ input,
      inputs[k]? = some input ∧
      turn.1 = ((solve library input).run (start method config)).1 ∧
      turn.2.solver.method = method ∧ turn.2.solver.config = config ∧
      turn.2.solver.solves =
        ((turns library inputs (start method config)).take (k + 1)).countP (fun t => t.1.isOk) ∧
      turn.2.notes = (inputs.take (k + 1)).flatMap fun i =>
        ((solve library i).run (start method config)).2.notes) ∧
    ((turns library inputs (start method config)).map fun t => (t.1, t.2.solver.solves)) =
      (start method config).solver.solveAll library inputs ∧
    ∀ (session : Session) (input : CostInput) (costs : Grid Float),
      session.solver.method = .padded → input.IsHeld → input.toGrid none none = .ok costs →
      let own := (solve library input).run session
      let sized := (solveSized costs.height costs.width input session.solver.config).run session
      own.1 = sized.1 ∧ own.2.notes = sized.2.notes ∧
        own.1 = Roster.solve costs.height costs.width input session.solver.config ∧
        ∀ outcome, own.1 = .ok outcome →
          own.2.notes = session.notes ++ Note.ofOutcome costs.height costs.width outcome := by
  refine ⟨?_, ?_, fun k turn hturn => ?_, turns_eq_solveAll _ _ _, ?_⟩
  · cases method with
    | padded => rfl
    | exact => rfl
    | scaled => rfl
    | exhaustive => rfl
  · have hlen := congrArg List.length (map_fst_turns library inputs (start method config))
    rwa [List.length_map, List.length_map] at hlen
  · rw [getElem?_turns] at hturn
    rcases Option.map_eq_some_iff.mp hturn with ⟨input, hinput, rfl⟩
    refine ⟨input, hinput, ?_, rfl, rfl, ?_, ?_⟩
    · rw [run_solve]
    -- The count of the inputs that have an answer is that of the answers in the log.
    · have hcount := congrArg (List.countP Except.isOk ∘ List.take (k + 1))
        (map_fst_turns library inputs (start method config))
      simp only [Function.comp_apply, ← List.map_take, List.countP_map] at hcount
      exact (Nat.zero_add _).trans hcount.symm
    · simp only [run_solve]
      rfl
  · intro session input costs hmethod hheld hgrid
    rw [run_solve, run_solveSized, hmethod, answer_padded hheld hgrid]
    refine ⟨rfl, rfl, fst_sizedAnswer _ _ _ _, fun outcome houtcome => ?_⟩
    exact congrArg (session.notes ++ ·) (snd_sizedAnswer houtcome)

/-- A library that fails on every table. -/
def brokenLibrary : Library Float where
  pairs := fun _ => .error .noFiniteMatching
  mates := fun _ => .error .scaledRange

/-- Three jobs for no workers. -/
def noWorkers : CostInput := .array { shape := [0, 3], entries := [] }

/-- An array of one dimension, a job for a worker, a negative cost, no workers, and a table
    that is too large to try every matching. -/
def mixedInputs : List CostInput :=
  [.array { shape := [2], entries := [1.0, 2.0] }, .array { shape := [1, 1], entries := [3.0] },
    .array { shape := [1, 1], entries := [-1.0] }, noWorkers,
    .array { shape := [9, 9], entries := List.replicate 81 0.0 }]

theorem turns_independent_mixedInputs :
    (turns brokenLibrary mixedInputs (start .exhaustive Config.default)).map (fun t =>
      (t.1.isOk, t.2.solver.solves)) =
        [(false, 0), (true, 1), (false, 1), (true, 2), (false, 2)] ∧
    (turns brokenLibrary mixedInputs (start .exact Config.default)).map (fun t =>
      (t.1.isOk, t.2.solver.solves)) =
        [(false, 0), (false, 0), (false, 0), (true, 1), (false, 1)] ∧
    noWorkers.IsHeld ∧ noWorkers.toGrid none none = .ok ⟨0, 3, #v[]⟩ ∧
    ((solve brokenLibrary noWorkers).run (start .padded Config.default)).1 =
      Roster.solve 0 3 noWorkers Config.default := by
  have hheld : noWorkers.IsHeld := rfl
  have hgrid : noWorkers.toGrid none none = .ok ⟨0, 3, #v[]⟩ := rfl
  refine ⟨by decide +kernel, by decide +kernel, hheld, hgrid, ?_⟩
  have hsized := (turns_independent brokenLibrary .padded Config.default mixedInputs).2.2.2.2
    (start .padded Config.default) noWorkers _ rfl hheld hgrid
  exact hsized.2.2.1

end Session

end Roster
