import Roster.Program.Assign
import Roster.Proofs.Cost.Acceptance
import Roster.Proofs.Methods.Answers
import Roster.Proofs.Report.Printable
import Roster.Proofs.Text.Split
import Roster.Solver.Reference

/-!
# The Program and Its Configuration

Between the command line and the solver stand the files. What the program answers for a
matrix without labels is told here without them: it is the answer of a new solver with the
configuration that was read, shown in a report, after a check of the matrix.

That check is not the solver's. It is made while the matrix is loaded, is always made, and
knows the default sentinel only. So the configuration decides alone unless it admits a
matrix that the default one refuses.

## Main definitions

* `CostMatrix.Unlabelled`: Costs that stand in a file without labels.
* `CostMatrix.plain`: A matrix with numbered labels.
* `Solver.answer`: The answer of a new solver.
* `Assign.Succeeds`: The program ends with the code of success.

## Theorems

* `Solver.answer_eq`: A solver checks what its configuration tells it to.
* `Assign.Poses.run_of_ok`, `Assign.Poses.run_of_error`: What the program makes of an outcome
  and of a fault.
* `Assign.Poses.succeeds_iff`: When the program succeeds.
* `Assign.run_as_configured`: The program answers as configured.
* `Assign.run_refuses_largeCost`: A cost that only the configuration admits.
-/

namespace Roster

/-! ### Matrices without labels -/

theorem Grid.ofList?_toList {α : Type} (g : Grid α) :
    ofList? g.height g.width g.toList = some g := by
  have hsize : g.toList.toArray.size = g.height * g.width := by simp [toList]
  rw [ofList?, dif_pos hsize]
  rfl

namespace CostMatrix

/-- A matrix with numbered labels. -/
def plain (costs : Grid Float) : CostMatrix where
  costs := costs
  workerIds := (List.range costs.height).map fun i => .text (numbered "Worker" i)
  jobIds := (List.range costs.width).map fun j => .text (numbered "Job" j)

theorem plain_isLabelled (costs : Grid Float) : (plain costs).IsLabelled where
  workers := by simp [plain]
  jobs := by simp [plain]
  workerText := by simp [plain]
  jobText := by simp [plain]

/-- The costs in a file without labels: those of a table, those of a document that holds no
    labels, or none if the document counts as nothing. -/
inductive Unlabelled (look : Location → Entry) (place : Location) : CostInput → Prop
  | table {text : String} {tensor : Tensor}
    (hending : documentEndings.contains place.extension = false)
    (htext : TableFile.read look place = .ok text) (hread : Table.read text = .ok tensor) :
    Unlabelled look place (.array tensor)
  | document {text : String} {document : Datum} {entries : List (Datum × Datum)}
    (hending : documentEndings.contains place.extension = true)
    (htext : readText look place = .ok text) (hread : Yaml.read text = .ok document)
    (htruthy : document.truthy = true) (hopened : document.opened = .mapping entries)
    (hworkers : (Datum.lookup? "workers" entries).getD .null = .null)
    (hjobs : (Datum.lookup? "jobs" entries).getD .null = .null) :
    Unlabelled look place (.rows ((Datum.lookup? "costs" entries).getD (.list [])))
  | vacant {text : String} {document : Datum}
    (hending : documentEndings.contains place.extension = true)
    (htext : readText look place = .ok text) (hread : Yaml.read text = .ok document)
    (htruthy : document.truthy = false) :
    Unlabelled look place (.rows (.list []))

variable {look : Location → Entry} {place : Location} {input : CostInput} {costs : Grid Float}

theorem Unlabelled.load_eq (h : Unlabelled look place input) :
    load look place = build input .null .null := by
  unfold load
  cases h with
  | table hending htext hread =>
    rw [if_neg (by rw [hending]; decide), htext]
    simp only [bind, Except.bind, hread]
  -- Labels that are null are as good as none.
  | document hending htext hread htruthy hopened hworkers hjobs =>
    rw [if_pos hending, htext]
    simp [bind, Except.bind, hread, ofDocument, htruthy, hopened, hworkers, hjobs]
  | vacant hending htext hread htruthy =>
    rw [if_pos hending, htext]
    simp [bind, Except.bind, hread, ofDocument, htruthy]

/-- Without labels of their own, checked costs get numbers. -/
theorem build_plain (hgrid : input.toGrid none none = .ok costs) :
    build input .null .null =
      (Cost.check costs costs.height costs.width sentinel).map fun _ => plain costs := by
  unfold build
  rw [hgrid]
  simp only [bind, Except.bind]
  cases Cost.check costs costs.height costs.width sentinel with
  | error fault => rfl
  | ok u => simp [labels, plain, Except.map, pure, Except.pure]

/-- The costs of a loaded matrix are those that were read. -/
theorem toGrid_gridInput (costs : Grid Float) :
    (gridInput costs).toGrid none none = .ok costs := by
  simp [CostInput.toGrid, gridInput, CostInput.tensorGrid, Grid.ofList?_toList]

end CostMatrix

/-! ### Solvers -/

namespace Solver

/-- The answer of a new solver. -/
def answer (library : Library Float) (name : String) (config : Config) (input : CostInput) :
    Except Fault (Outcome Float) := do
  let solver ← create name config
  (solver.solve library input).1

variable {library : Library Float} {name : String} {config : Config} {input : CostInput}
  {costs : Grid Float}

theorem fst_solve (solver : Solver) (input : CostInput) :
    (solver.solve library input).1 = solver.method.solve library input solver.config := by
  unfold solve
  split
  · rename_i h
    exact h.symm
  · rename_i h
    exact h.symm

/-- Only the costs of an input count, not the form in which they are given. -/
theorem answer_gridInput (h : input.toGrid none none = .ok costs) :
    answer library name config (CostMatrix.gridInput costs) =
      answer library name config input := by
  -- Both inputs have the same table, and nothing else of them is looked at.
  have hprepare : prepare none (CostMatrix.gridInput costs) config = prepare none input config := by
    simp [prepare, h, CostMatrix.toGrid_gridInput]
  unfold answer create
  split
  · rename_i method
    simp [bind, Except.bind, fst_solve, Method.solve, hprepare]
  · rfl

end Solver

/-- The check of some costs that a configuration asks for, if any. -/
def Config.check (config : Config) (costs : Grid Float) : Except Fault Unit :=
  if config.validates then Cost.check costs costs.height costs.width config.paddingSentinel
  else .ok ()

/-- The solver checks the costs if it is told to, and then solves them. -/
theorem Solver.answer_eq {library : Library Float} {method : Method} {name : String}
    {config : Config} {input : CostInput} {costs : Grid Float}
    (hgrid : input.toGrid none none = .ok costs) (hname : Method.ofName? name = some method) :
    answer library name config input = (do
      config.check costs
      method.solvePrepared (.doubles library) costs (Settings.ofConfig config)) := by
  have hprepare : prepare none input config = (config.check costs).map fun _ => costs := by
    simp only [prepare, hgrid, Config.check, bind, Except.bind, pure, Except.pure, Option.map_none,
      Option.getD_none]
    -- Without a declared size, a table is checked against its own.
    by_cases hv : config.validates = true
    · rw [if_pos hv, if_pos hv]
      rfl
    · rw [if_neg hv, if_neg hv]
      rfl
  simp only [answer, create, hname, bind, Except.bind, fst_solve, Method.solve, hprepare]
  cases config.check costs with
  | error fault => rfl
  | ok u => rfl

/-- A solver that answers has let the costs pass, and matches workers and jobs inside them. -/
theorem Solver.of_answer {library : Library Float} {name : String} {config : Config}
    {input : CostInput} {costs : Grid Float} {o : Outcome Float}
    (hgrid : input.toGrid none none = .ok costs) (h : answer library name config input = .ok o) :
    config.check costs = .ok () ∧
      o.workerOf.Inside costs.height costs.width ∧ o.idle = o.workerOf.idle costs.height := by
  cases hname : Method.ofName? name with
  | none => simp [answer, create, hname, bind, Except.bind] at h
  | some method =>
    rw [answer_eq hgrid hname, bind_eq_ok_iff] at h
    rcases h with ⟨_, hcheck, h⟩
    have hanswers : Method.Answers library config costs method (.ok o) :=
      h ▸ method.solvePrepared_answers
    exact ⟨hcheck, hanswers⟩

/-- A configuration with a sentinel up to the default one checks at least what loading does. -/
theorem Config.fits_of_check {config : Config} {costs : Grid Float} {bound : Float}
    (hv : config.validates = true) (hbound : config.paddingSentinel.toDouble? = some bound)
    (hle : bound ≤ 1.0e9) (h : config.check costs = .ok ()) : costs.Fits 1.0e9 := by
  rcases Binary64.le_iff.mp hle with ⟨b, _, hb, _, _⟩
  rw [Config.check, if_pos hv, Cost.check_eq_ok_iff hbound (by simp [hb])] at h
  exact h.mono hle

/-! ### The program -/

namespace Program.Assign

/-- A command line names a configuration and the file of a matrix without labels, and asks for
    no figure. -/
structure Poses (look : Location → Entry) (words : List String) (request : Request)
    (config : Config) (said : String) (input : CostInput) (costs : Grid Float) : Prop where
  words : Request.ofWords words = .ok request
  config : readConfig look (Location.ofString request.config) = .ok (config, said)
  named : request.matrix ≠ ""
  unplotted : request.plot = ""
  file : CostMatrix.Unlabelled look (Location.ofString request.matrix) input
  grid : input.toGrid none none = .ok costs

/-- What the program leaves behind when a problem is solved. -/
def success (request : Request) (said : String) (solved : Solved) (report : String) : Answer where
  code := Guide.successCode
  console := Console.ofOut (Output.line said) ++ Console.ofErr (notes request solved) ++
    Console.ofOut (headline request solved ++ Output.line report)
  saved := none

/-- What it leaves behind when a problem is not solved. -/
def failure (said : String) (fault : Fault) : Answer where
  code := failureCode
  console := Console.ofOut (Output.line said) ++
    Console.ofErr (Output.line ("Error: " ++ fault.message))
  saved := none

/-- The program ends with the code of success. -/
def Succeeds (library : Library Float) (renderer : Figure.Renderer) (look : Location → Entry)
    (words : List String) : Prop :=
  ∃ answer, run library renderer look words = .ok answer ∧ answer.code = Guide.successCode

variable {library : Library Float} {renderer : Figure.Renderer} {look : Location → Entry}
  {words : List String} {request : Request} {config : Config} {said : String} {input : CostInput}
  {costs : Grid Float}

/-- The check while the matrix is loaded, and then the answer of a new solver. -/
def loaded (library : Library Float) (solver : String) (config : Config) (input : CostInput)
    (costs : Grid Float) : Except Fault (Outcome Float) := do
  Cost.check costs costs.height costs.width CostMatrix.sentinel
  Solver.answer library solver config input

/-- The check of the loader knows the default sentinel only. -/
theorem loaded_eq_ok_iff {solver : String} {o : Outcome Float} :
    loaded library solver config input costs = .ok o ↔
      costs.Fits 1.0e9 ∧ Solver.answer library solver config input = .ok o := by
  have hcheck : Cost.check costs costs.height costs.width CostMatrix.sentinel = .ok () ↔
      costs.Fits 1.0e9 := Cost.check_eq_ok_iff rfl (by decide)
  rw [loaded, bind_eq_ok_iff, ← hcheck]
  simp only [Unique.exists_iff, PUnit.default_eq_unit]

namespace Poses

variable (h : Poses look words request config said input costs)
include h

variable (library) in
theorem loadAndSolve_eq : loadAndSolve library look request.matrix request.solver config =
    (loaded library request.solver config input costs).map fun o =>
      { matrix := CostMatrix.plain costs, outcome := o } := by
  -- First the file on its own, then the solver on its own, and the two steps are put together.
  have hread : readMatrix look request.matrix =
      (Cost.check costs costs.height costs.width CostMatrix.sentinel).map
        fun _ => CostMatrix.plain costs := by
    unfold readMatrix
    rw [if_neg (by simpa using h.named), h.file.load_eq, CostMatrix.build_plain h.grid]
  have hsolve : solveMatrix library request.solver config (CostMatrix.plain costs) =
      (Solver.answer library request.solver config input).map fun o =>
        { matrix := CostMatrix.plain costs, outcome := o } := by
    rw [← Solver.answer_gridInput h.grid]
    unfold solveMatrix Solver.answer
    cases Solver.create request.solver config with
    | error fault => rfl
    | ok solver => rfl
  unfold loadAndSolve loaded
  rw [hread]
  cases Cost.check costs costs.height costs.width CostMatrix.sentinel with
  | error fault => rfl
  | ok u => exact hsolve

variable (renderer) in
/-- With a fault, the program reports it or ends with it. -/
theorem run_of_error {fault : Fault}
    (hfault : loaded library request.solver config input costs = .error fault) :
    run library renderer look words =
      if fault.isReportable then .ok (failure said fault) else .error fault := by
  have hload := h.loadAndSolve_eq library
  rw [hfault] at hload
  unfold run runRequest
  simp only [h.words, h.config, hload, bind, Except.bind, Except.map]
  rfl

/-- With an outcome, the program shows its report, and there always is one. -/
theorem run_of_ok {o : Outcome Float}
    (ho : loaded library request.solver config input costs = .ok o) :
    ∃ report, Report.ofMatrix (CostMatrix.plain costs) o = .ok report ∧
      run library renderer look words =
        .ok (success request said { matrix := CostMatrix.plain costs, outcome := o } report) := by
  -- The outcome lies inside the matrix and the labels are texts, so nothing keeps it from a report.
  have hload := h.loadAndSolve_eq library
  rw [ho] at hload
  rw [loaded, bind_eq_ok_iff] at ho
  rcases ho with ⟨_, _, ho⟩
  rcases Solver.of_answer h.grid ho with ⟨_, hin, hidle⟩
  have hreport : ∃ report, Report.ofMatrix (CostMatrix.plain costs) o = .ok report :=
    Report.exists_ofMatrix (CostMatrix.plain_isLabelled costs) hin fun w hw => by
      rw [hidle] at hw
      exact (Matching.mem_idle.mp hw).1
  rcases hreport with ⟨report, hreport⟩
  refine ⟨report, hreport, ?_⟩
  unfold run runRequest
  simp only [h.words, h.config, hload, bind, Except.bind, Except.map, hreport, h.unplotted]
  rfl

/-- The program succeeds if the costs pass the check of the loader and a new solver has an
    answer for them. -/
theorem succeeds_iff : Succeeds library renderer look words ↔
    costs.Fits 1.0e9 ∧ ∃ o, Solver.answer library request.solver config input = .ok o := by
  constructor
  · rintro ⟨answer, hrun, hcode⟩
    -- A fault that is reported ends with a code of its own, and one that is not with no answer.
    cases hload : loaded library request.solver config input costs with
    | error fault =>
      rw [h.run_of_error renderer hload] at hrun
      split at hrun
      · rcases Except.ok.inj hrun with rfl
        exact absurd hcode (by simp [failure, failureCode, Guide.successCode])
      · simp at hrun
    | ok o =>
      rcases loaded_eq_ok_iff.mp hload with ⟨hfits, ho⟩
      exact ⟨hfits, o, ho⟩
  · rintro ⟨hfits, o, ho⟩
    rcases h.run_of_ok (loaded_eq_ok_iff.mpr ⟨hfits, ho⟩) with ⟨report, _, hrun⟩
    exact ⟨_, hrun, rfl⟩

/-- A solver with a configuration that admits the costs fails for a reason of its method only. -/
theorem answer_failure {bound : Float} {method : Method} {fault : Fault}
    (hbound : config.paddingSentinel.toDouble? = some bound) (hfits : costs.Fits bound)
    (hname : Method.ofName? request.solver = some method)
    (hfault : Solver.answer library request.solver config input = .error fault) :
    ¬ costs.isEmpty = true ∧ method.Failure library config costs fault := by
  -- The check passes, so the fault is one of the method's.
  have hcheck : config.check costs = .ok () := by
    unfold Config.check
    split
    · exact Cost.check_of_fits hbound hfits
    · rfl
  rw [Solver.answer_eq h.grid hname, hcheck] at hfault
  have hanswers : Method.Answers library config costs method (.error fault) :=
    hfault ▸ method.solvePrepared_answers
  exact hanswers

end Poses

/-- The program does what its configuration says, whatever library and renderer it is run with:
    it succeeds exactly if a new solver with that configuration and that library has an answer for
    the costs in the file, and reports that answer. So it accepts all costs below the sentinel,
    unless the method fails at them for a reason of its own, which no method does at what it copes
    with, nor the padded search at any costs if the cap lies far above the sentinel. This holds for
    costs below the default sentinel under every configuration, and for all costs under those that
    check them against no greater one. -/
theorem run_as_configured (library : Library Float) (renderer : Figure.Renderer)
    (h : Poses look words request config said input costs)
    (hloads : costs.Fits 1.0e9 ∨ config.validates = true ∧
      ∃ bound, config.paddingSentinel.toDouble? = some bound ∧ bound ≤ 1.0e9) :
    (Succeeds library renderer look words ↔
      ∃ o, Solver.answer library request.solver config input = .ok o) ∧
    (∀ o, Solver.answer library request.solver config input = .ok o →
      ∃ report, Report.ofMatrix (CostMatrix.plain costs) o = .ok report ∧
        run library renderer look words =
          .ok (success request said { matrix := CostMatrix.plain costs, outcome := o } report)) ∧
    ∀ bound method, config.paddingSentinel.toDouble? = some bound → costs.Fits bound →
      Method.ofName? request.solver = some method →
      (Succeeds library renderer look words ∨
        ∃ fault, Solver.answer library request.solver config input = .error fault ∧
          ¬ costs.isEmpty = true ∧ method.Failure library config costs fault) ∧
      (costs.isEmpty = true ∨ method.Copes library config costs ∨
          method = .padded ∧ config.IsAmple costs.height costs.width →
        Succeeds library renderer look words) := by
  -- Either condition lets all costs through the loader that the configuration lets through.
  have hanswer : ∀ o, Solver.answer library request.solver config input = .ok o →
      costs.Fits 1.0e9 := by
    intro o ho
    rcases hloads with hloads | ⟨hv, bound, hbound, hle⟩
    · exact hloads
    · exact Config.fits_of_check hv hbound hle (Solver.of_answer h.grid ho).1
  have hbelow : ∀ bound, config.paddingSentinel.toDouble? = some bound → costs.Fits bound →
      costs.Fits 1.0e9 := by
    intro bound hbound hfits
    rcases hloads with hloads | ⟨_, bound', hbound', hle⟩
    · exact hloads
    · rw [hbound, Option.some.injEq] at hbound'
      exact hfits.mono (hbound' ▸ hle)
  refine ⟨?_, ?_, ?_⟩
  · rw [h.succeeds_iff]
    exact ⟨fun hs => hs.2, fun ⟨o, ho⟩ => ⟨hanswer o ho, o, ho⟩⟩
  · intro o ho
    exact h.run_of_ok (loaded_eq_ok_iff.mpr ⟨hanswer o ho, ho⟩)
  -- The costs pass both checks here, so whatever goes wrong comes from the method.
  · intro bound method hbound hfits hname
    have hcases : Succeeds library renderer look words ∨ ∃ fault,
        Solver.answer library request.solver config input = .error fault ∧
          ¬ costs.isEmpty = true ∧ method.Failure library config costs fault := by
      cases hsolve : Solver.answer library request.solver config input with
      | ok o => exact Or.inl (h.succeeds_iff.mpr ⟨hbelow bound hbound hfits, o, hsolve⟩)
      | error fault => exact Or.inr ⟨fault, rfl, h.answer_failure hbound hfits hname hsolve⟩
    refine ⟨hcases, fun hcopes => ?_⟩
    rcases hcases with hs | ⟨fault, _, hcells, hfault⟩
    · exact hs
    · rcases hcopes with hempty | hcopes | ⟨rfl, hample⟩
      · exact absurd hempty hcells
      · exact absurd hfault hcopes.not_failure
      · have hcopes : Method.padded.Copes library config costs := .of_isAmple hample fun b hb =>
          Option.some.inj (hbound.symm.trans hb) ▸ hfits
        exact absurd hfault hcopes.not_failure

/-! ### A raised sentinel -/

/-- The costs of a document without labels, as far as they are a table. -/
def plainCosts? (document : Datum) : Option (Grid Float) :=
  match document.truthy, document.opened with
  | true, .mapping entries =>
    match (Datum.lookup? "workers" entries).getD .null,
      (Datum.lookup? "jobs" entries).getD .null with
    | .null, .null =>
      ((CostInput.rows ((Datum.lookup? "costs" entries).getD (.list []))).toGrid none none).toOption
    | _, _ => none
  | _, _ => none

theorem exists_unlabelled {look : Location → Entry} {place : Location} {text : String}
    {costs : Grid Float}
    (hending : CostMatrix.documentEndings.contains place.extension = true)
    (htext : readText look place = .ok text)
    (hread : (Yaml.read text).toOption.bind plainCosts? = some costs) :
    ∃ input, CostMatrix.Unlabelled look place input ∧ input.toGrid none none = .ok costs := by
  rcases Option.bind_eq_some_iff.mp hread with ⟨document, hdocument, hcosts⟩
  unfold plainCosts? at hcosts
  split at hcosts
  · rename_i entries htruthy hopened
    split at hcosts
    · rename_i hworkers hjobs
      exact ⟨_, .document hending htext (toOption_eq_some_iff.mp hdocument) htruthy hopened
        hworkers hjobs, toOption_eq_some_iff.mp hcosts⟩
    · simp at hcosts
  · simp at hcosts

/-- A configuration with a sentinel above the default one, a cost between the two, and costs
    below both. -/
def shelf (place : Location) : Entry :=
  if place = { slashes := 0, names := ["c.yaml"] } then
    .file "\"solver\":\n  \"padding_sentinel\": 1.0e+12\n"
  else if place = { slashes := 0, names := ["m.yaml"] } then .file "\"costs\": [[5.0e+9]]\n"
  else if place = { slashes := 0, names := ["s.yaml"] } then
    .file "\"costs\": [[5.0, 2.5], [7.0, 1.0]]\n"
  else .missing

/-- The command line for one of these matrices. -/
def errand (name : String) : List String :=
  ["--config", "c.yaml", "--matrix", name, "--solver", "bruteforce"]

deriving instance DecidableEq for Request
deriving instance DecidableEq for Grid

theorem exists_poses {name text : String} {costs : Grid Float}
    (hwords : (Request.ofWords (errand name)).toOption = some
      { config := "c.yaml", matrix := name, solver := "bruteforce", plot := "", verbose := false })
    (hname : '/' ∉ name.toList ∧ name ≠ "" ∧ name ≠ ".")
    (hending : CostMatrix.documentEndings.contains
      (Location.extension { slashes := 0, names := [name] }) = true)
    (htext : readText shelf { slashes := 0, names := [name] } = .ok text)
    (hread : (Yaml.read text).toOption.bind plainCosts? = some costs) :
    ∃ request config said input, Poses shelf (errand name) request config said input costs ∧
      Method.ofName? request.solver = some .exhaustive ∧
      config.paddingSentinel.toDouble? = some 1.0e12 := by
  -- The text of a file is read by evaluation, and all places by a lemma.
  have hconfig : (readConfig shelf { slashes := 0, names := ["c.yaml"] }).toOption.any
      (fun x => x.1.paddingSentinel.toDouble? = some 1.0e12) = true := by
    decide +kernel
  have hplace : Location.ofString "c.yaml" = { slashes := 0, names := ["c.yaml"] } :=
    Location.ofString_name (by decide) (by decide) (by decide)
  have hmatrix := Location.ofString_name hname.1 hname.2.1 hname.2.2
  rcases (Option.any_eq_true _ _).mp hconfig with ⟨⟨config, said⟩, hload, hsentinel⟩
  rcases exists_unlabelled hending htext hread with ⟨input, hfile, hgrid⟩
  refine ⟨_, config, said, input, ⟨toOption_eq_some_iff.mp hwords, ?_, hname.2.1, rfl, ?_, hgrid⟩,
    rfl, of_decide_eq_true hsentinel⟩
  · rw [hplace]
    exact toOption_eq_some_iff.mp hload
  · rw [hmatrix]
    exact hfile

/-- A cost between the default sentinel and the configured one. -/
def largeCost : Grid Float where
  height := 1
  width := 1
  cells := #v[5.0e9]

/-- Costs below both sentinels. -/
def smallCosts : Grid Float where
  height := 2
  width := 2
  cells := #v[5.0, 2.5, 7.0, 1.0]

/-- The configuration admits the cost and the solver answers, and still the program refuses it:
    the loader compares it with the default sentinel. -/
theorem run_refuses_largeCost :
    ∃ request config said input bound,
      Poses shelf (errand "m.yaml") request config said input largeCost ∧
      config.paddingSentinel.toDouble? = some bound ∧ largeCost.Fits bound ∧
      (∃ o, Solver.answer Reference.library request.solver config input = .ok o) ∧
      ∃ answer, run Reference.library Figure.boundless shelf (errand "m.yaml") = .ok answer ∧
        answer.code = failureCode := by
  rcases @exists_poses "m.yaml" _ largeCost (by decide +kernel) (by decide) (by decide +kernel)
    rfl (by decide +kernel) with ⟨request, config, said, input, h, hmethod, hbound⟩
  have hfits : largeCost.Fits 1.0e12 := by
    unfold Grid.Fits
    decide +kernel
  have hside : min largeCost.height largeCost.width ≤ Exhaustive.maxSide := by decide
  have hcheck : Cost.check largeCost largeCost.height largeCost.width CostMatrix.sentinel =
      .error (.matrix (.notBelowSentinel 0 0 5.0e9 CostMatrix.sentinel)) := by rfl
  have hloaded : loaded Reference.library request.solver config input largeCost =
      .error (.matrix (.notBelowSentinel 0 0 5.0e9 CostMatrix.sentinel)) := by
    rw [loaded, hcheck]
    rfl
  refine ⟨request, config, said, input, 1.0e12, h, hbound, hfits, ?_, ?_⟩
  -- An exhaustive solver has no reason to fail at a single cell.
  · cases hsolve : Solver.answer Reference.library request.solver config input with
    | ok o => exact ⟨o, rfl⟩
    | error fault =>
      have hfault := (h.answer_failure hbound hfits hmethod hsolve).2
      exact absurd hfault (Method.Copes.exhaustive hside).not_failure
  · have hrun := h.run_of_error Figure.boundless hloaded
    exact ⟨_, hrun.trans (if_pos rfl), rfl⟩

/-- Costs below both sentinels are taken. -/
theorem run_as_configured_smallCosts :
    ∃ request config said input bound,
      Poses shelf (errand "s.yaml") request config said input smallCosts ∧
      smallCosts.Fits 1.0e9 ∧ config.paddingSentinel.toDouble? = some bound ∧
      smallCosts.Fits bound ∧
      Succeeds Reference.library Figure.boundless shelf (errand "s.yaml") ∧
      ∃ o, Solver.answer Reference.library request.solver config input = .ok o := by
  rcases @exists_poses "s.yaml" _ smallCosts (by decide +kernel) (by decide) (by decide +kernel)
    rfl (by decide +kernel) with ⟨request, config, said, input, h, hmethod, hbound⟩
  have hfits : smallCosts.Fits 1.0e9 := by
    unfold Grid.Fits
    decide +kernel
  have hfits' : smallCosts.Fits 1.0e12 := by
    unfold Grid.Fits
    decide +kernel
  rcases run_as_configured Reference.library Figure.boundless h (Or.inl hfits) with
    ⟨hiff, _, haccepts⟩
  have hsucceeds := (haccepts 1.0e12 .exhaustive hbound hfits' hmethod).2
    (Or.inr (Or.inl (.exhaustive (by decide))))
  exact ⟨request, config, said, input, 1.0e12, h, hfits, hbound, hfits', hsucceeds,
    hiff.mp hsucceeds⟩

end Program.Assign

end Roster
