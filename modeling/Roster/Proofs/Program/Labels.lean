import Roster.Proofs.Methods.Sessions
import Roster.Proofs.Program.Configured

/-!
# Solved Matrices and Their Labels

A matrix that was built or loaded has as many labels as workers and jobs, and an outcome for
its costs lies inside it. Both hold without a look at what the labels are, or at how good the
outcome is: a matching that goes beyond the matrix has no total, so even a library that answers
nonsense gives nothing that a report cannot look up. What is left are the labels themselves.

Nothing between the file and the report makes texts of them. The program ends with the fault
of a report, as it does not expect one.

## Main definitions

* `CostMatrix.IsMade`: A matrix that was built or loaded.

## Theorems

* `CostMatrix.IsMade.isSized`: Such a matrix has enough labels.
* `Session.inside_of_solve`: Whatever a session answers lies inside the matrix.
* `Report.ofMatrix_of_solve`: Which solved matrices have a report.
* `Program.Assign.run_of_unreported`: The program without a report.
* `Program.Assign.report_fails_badgedStaff`: Two numbered workers for one job.
-/

namespace Roster

namespace CostMatrix

/-- A matrix that was built from costs and labels, or loaded from a file. -/
inductive IsMade (matrix : CostMatrix) : Prop
  | built {input : CostInput} {workers jobs : Datum} (h : build input workers jobs = .ok matrix)
  | loaded {look : Location → Entry} {place : Location} (h : load look place = .ok matrix)

variable {matrix : CostMatrix}

theorem isSized_of_build {input : CostInput} {workers jobs : Datum}
    (h : build input workers jobs = .ok matrix) : matrix.IsSized := by
  unfold build at h
  simp only [bind_eq_ok_iff, guarded_eq_ok_iff, not_or, not_not] at h
  -- The last guard compares the numbers of labels with the sides of the table.
  rcases h with ⟨costs, _, _, _, workerIds, _, jobIds, _, hcount, h⟩
  rcases Except.ok.inj h with rfl
  exact ⟨hcount.1, hcount.2⟩

/-- What is loaded is built. -/
theorem exists_build_of_load {look : Location → Entry} {place : Location}
    (h : load look place = .ok matrix) :
    ∃ input workers jobs, build input workers jobs = .ok matrix := by
  unfold load at h
  split at h
  -- A document is a mapping with costs and labels, or costs alone. A table in a text file has
  -- no labels.
  · simp only [bind_eq_ok_iff] at h
    rcases h with ⟨_, _, document, _, h⟩
    unfold ofDocument at h
    split at h
    · exact ⟨_, _, _, h⟩
    -- A document that is no mapping has to be a list.
    · split at h
      · exact ⟨_, _, _, h⟩
      · exact absurd h nofun
  · simp only [bind_eq_ok_iff] at h
    rcases h with ⟨_, _, tensor, _, h⟩
    exact ⟨_, _, _, h⟩

theorem IsMade.isSized (h : matrix.IsMade) : matrix.IsSized := by
  cases h with
  | built h => exact isSized_of_build h
  | loaded h =>
    rcases exists_build_of_load h with ⟨input, workers, jobs, h⟩
    exact isSized_of_build h

/-- A matrix that was built without labels has numbered ones. -/
theorem isLabelled_of_build {input : CostInput} (h : build input .null .null = .ok matrix) :
    matrix.IsLabelled := by
  rcases bind_eq_ok_iff.mp h with ⟨costs, hgrid, _⟩
  rw [build_plain hgrid] at h
  rcases map_eq_ok_iff.mp h with ⟨_, _, rfl⟩
  exact plain_isLabelled costs

end CostMatrix

/-- What a session answers to a table lies inside it. -/
theorem Session.inside_of_solve {library : Library Float} {session : Session} {costs : Grid Float}
    {o : Outcome Float}
    (h : ((solve library (CostMatrix.gridInput costs)).run session).1 = .ok o) :
    o.workerOf.Inside costs.height costs.width ∧ o.idle = o.workerOf.idle costs.height := by
  rw [run_solve, answer] at h
  split at h
  · exact absurd h (by simp only [reduceCtorEq, not_false_eq_true])
  · rename_i found hprepare
    -- The table of a table is the table itself, so the answer lies inside the matrix at hand.
    rcases CostInput.prepare_eq_toGrid hprepare (CostMatrix.toGrid_gridInput costs) with rfl
    have hanswers : Method.Answers library session.solver.config found session.solver.method
        (.ok o) := h ▸ session.solver.method.solvePrepared_answers
    exact hanswers

namespace Report

/-- A matrix that was built or loaded, and solved by any method with whatever was solved before
    it, has a report if the labels in the lines of its jobs can be written and those of the
    workers left over are texts. Otherwise the report fails, and the lines of the jobs are what
    it fails at first. So texts for labels are enough, and so is to give none. -/
theorem ofMatrix_of_solve {matrix : CostMatrix} (hmade : matrix.IsMade) (library : Library Float)
    (session : Session) {o : Outcome Float}
    (hsolve : ((Session.solve library (CostMatrix.gridInput matrix.costs)).run session).1 =
      .ok o) :
    ((∃ text, ofMatrix matrix o = .ok text) ↔
      matrix.ShowsLines o.workerOf ∧ matrix.ShowsIdle o.idle) ∧
    (∀ fault, ofMatrix matrix o = .error fault ↔
      ¬ matrix.ShowsLines o.workerOf ∧ fault = .overlongInteger none ∨
      matrix.ShowsLines o.workerOf ∧ ¬ matrix.ShowsIdle o.idle ∧ fault = .wrongKind) ∧
    ((∀ label ∈ matrix.workerIds ++ matrix.jobIds, label.isText = true) →
      ∃ text, ofMatrix matrix o = .ok text) ∧
    ∀ input, CostMatrix.build input .null .null = .ok matrix →
      ∃ text, ofMatrix matrix o = .ok text := by
  rcases Session.inside_of_solve hsolve with ⟨hin, hidle⟩
  have hlt : ∀ w ∈ o.idle, w < matrix.costs.height := fun w hw => by
    rw [hidle] at hw
    exact (Matching.mem_idle.mp hw).1
  -- From here on nothing is asked about the session: the labels are all that is left.
  have htext := ofMatrix_ok_iff hmade.isSized hin hlt
  refine ⟨htext, fun fault => ofMatrix_error_iff hmade.isSized hin hlt, fun hlabels => ?_,
    fun input hbuild => ?_⟩
  · exact htext.mpr (CostMatrix.shows_of_isText hlabels o.workerOf o.idle)
  · exact exists_ofMatrix (CostMatrix.isLabelled_of_build hbuild) hin hlt

/-- Two workers that go by letters, and one job. -/
def letteredStaff : CostMatrix where
  costs := ⟨2, 1, #v[1.0, 2.0]⟩
  workerIds := [.text "A", .text "B"]
  jobIds := [.text "cut"]

theorem ofMatrix_of_solve_letteredStaff :
    CostMatrix.build (CostMatrix.gridInput letteredStaff.costs) (.list letteredStaff.workerIds)
        (.list letteredStaff.jobIds) = .ok letteredStaff ∧
      ∃ o, ((Session.solve Reference.library (CostMatrix.gridInput letteredStaff.costs)).run
          (Session.start .padded Config.default)).1 = .ok o ∧
        o.idle = [1] ∧ ∃ text, ofMatrix letteredStaff o = .ok text := by
  have hbuild : CostMatrix.build (CostMatrix.gridInput letteredStaff.costs)
      (.list letteredStaff.workerIds) (.list letteredStaff.jobIds) = .ok letteredStaff := rfl
  have hidle : (((Session.solve Reference.library (CostMatrix.gridInput letteredStaff.costs)).run
      (Session.start .padded Config.default)).1.toOption.any fun o => o.idle == [1]) = true := by
    decide +kernel
  rcases (Option.any_eq_true _ _).mp hidle with ⟨o, ho, hidle⟩
  have hsolve := toOption_eq_some_iff.mp ho
  refine ⟨hbuild, o, hsolve, eq_of_beq hidle, ?_⟩
  exact (ofMatrix_of_solve (.built hbuild) Reference.library
    (Session.start .padded Config.default) hsolve).2.2.1 (by simp [letteredStaff, Datum.isText])

end Report

namespace Program.Assign

/-- Whether a step fails for the kind of a datum. -/
def isMisfit {α : Type} : Except Fault α → Bool
  | .error .wrongKind => true
  | _ => false

theorem eq_of_isMisfit {α : Type} {a : Except Fault α} (h : isMisfit a = true) :
    a = .error .wrongKind := by
  unfold isMisfit at h
  split at h
  · rfl
  · exact absurd h Bool.false_ne_true

variable {library : Library Float} {look : Location → Entry} {words : List String}
  {request : Request} {config : Config} {said : String} {solved : Solved}

/-- What the program solves was read by it and answered in a new session. -/
theorem of_loadAndSolve {path solver : String}
    (h : loadAndSolve library look path solver config = .ok solved) :
    readMatrix look path = .ok solved.matrix ∧
      ∃ method, Method.ofName? solver = some method ∧
        ((Session.solve library (CostMatrix.gridInput solved.matrix.costs)).run
          (Session.start method config)).1 = .ok solved.outcome := by
  unfold loadAndSolve solveMatrix Solver.create at h
  simp only [bind_eq_ok_iff] at h
  rcases h with ⟨matrix, hmatrix, solver, hsolver, o, ho, h⟩
  rcases Except.ok.inj h with rfl
  refine ⟨hmatrix, ?_⟩
  -- A solver has been created, so its name is one of the known ones.
  split at hsolver
  · rename_i method hmethod
    rcases Except.ok.inj hsolver with rfl
    rw [Solver.fst_solve] at ho
    refine ⟨method, hmethod, ?_⟩
    rw [Session.run_solve]
    exact (Session.fst_answer _ _ _ _).trans ho
  · exact absurd hsolver nofun

/-- If there is no report of what was solved, the program ends with the fault of the report. -/
theorem run_of_unreported {renderer : Figure.Renderer} {fault : Fault}
    (hwords : Request.ofWords words = .ok request)
    (hconfig : readConfig look (Location.ofString request.config) = .ok (config, said))
    (hload : loadAndSolve library look request.matrix request.solver config = .ok solved)
    (hreport : Report.ofMatrix solved.matrix solved.outcome = .error fault) :
    run library renderer look words = .error fault := by
  unfold run runRequest
  simp only [hwords, hconfig, hload, bind, Except.bind, hreport]

/-- Two workers that go by their numbers, and one job. -/
def rota (place : Location) : Entry :=
  if place = { slashes := 0, names := ["m.yaml"] } then
    .file "\"workers\": [101, 102]\n\"jobs\": [\"cut\"]\n\"costs\": [[1.0], [2.0]]\n"
  else .missing

/-- The matrix loads and is solved, and the line of its job can be shown. But a worker is left
    over, and the number of a worker is no text: the report fails, and the program with it. -/
theorem report_fails_badgedStaff :
    ∃ matrix o, CostMatrix.load rota (Location.ofString "m.yaml") = .ok matrix ∧
      ((Session.solve Reference.library (CostMatrix.gridInput matrix.costs)).run
        (Session.start .padded Config.default)).1 = .ok o ∧
      Report.ofMatrix matrix o = .error .wrongKind ∧
      run Reference.library Figure.boundless rota ["--matrix", "m.yaml"] = .error .wrongKind := by
  have hwords : (Request.ofWords ["--matrix", "m.yaml"]).toOption = some
      { config := defaultConfig, matrix := "m.yaml", solver := "hungarian", plot := "",
        verbose := false } := by
    decide +kernel
  have hconfig : readConfig rota (Location.ofString defaultConfig) = .ok (Config.default,
      "Config " ++ (Location.ofString defaultConfig).toString ++ " not found, using defaults") := by
    -- There is no other file, so the default configuration is used.
    have hother : ¬ Location.ofString defaultConfig = { slashes := 0, names := ["m.yaml"] } := by
      intro h
      have hnames := congrArg Location.names h
      rw [Location.ofString_names] at hnames
      exact absurd hnames (by decide)
    rw [readConfig, rota, if_neg hother]
  have hplace : Location.ofString "m.yaml" = { slashes := 0, names := ["m.yaml"] } :=
    Location.ofString_name (by decide) (by decide) (by decide)
  -- Reading, solving and the fault are computed in one go.
  have hfails : ((CostMatrix.load rota { slashes := 0, names := ["m.yaml"] }).bind
      (solveMatrix Reference.library "hungarian" Config.default)).toOption.any (fun solved =>
        isMisfit (Report.ofMatrix solved.matrix solved.outcome)) = true := by
    decide +kernel
  rcases (Option.any_eq_true _ _).mp hfails with ⟨solved, hsolved, hfails⟩
  have hload : loadAndSolve Reference.library rota "m.yaml" "hungarian" Config.default =
      .ok solved := by
    rw [← toOption_eq_some_iff.mp hsolved, ← hplace]
    rfl
  have hreport := eq_of_isMisfit hfails
  rcases of_loadAndSolve hload with ⟨hread, method, hmethod, hsolve⟩
  rcases Option.some.inj hmethod with rfl
  exact ⟨solved.matrix, solved.outcome, hread, hsolve, hreport,
    run_of_unreported (toOption_eq_some_iff.mp hwords) hconfig hload hreport⟩

end Program.Assign

end Roster
