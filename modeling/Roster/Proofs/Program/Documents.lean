import Roster.Proofs.Cost.Leaves
import Roster.Proofs.Cost.Refusal
import Roster.Proofs.Program.Configured

/-!
# Documents That Escape the Program

The program reports bad values and missing files, and ends with every other fault. Between the
document of a matrix and the outcome there are five such faults: what has to be walked cannot
be walked, a leaf strays, labels are no labels, a setting has no double, and the search does not
end. A document that is no mapping is not among them, and neither are uneven rows or a text in
the place of a cost.

So whether the program reports what is wrong with a document, or ends with it, can be told from
the document, the configuration and the method.

## Main definitions

* `CostMatrix.Parts`: What the loader takes from a document.
* `Config.Overflows`, `Config.IsEndless`: The two ways in which a solve ends so.
* `Program.Assign.Escapes`: The faults that a document comes to without a report.
* `Program.Assign.Opens`: A command line for a document.

## Theorems

* `CostMatrix.build_unreported_iff`: How a document fails to be a matrix without a report.
* `Solver.answer_unreported_iff`: How a matrix fails to be solved without a report.
* `Program.Assign.escapes_iff`: The two together.
* `Program.Assign.run_of_document`: What the program makes of a document.
* `Program.Assign.run_bareCosts`: A number in the place of rows.
-/

namespace Roster

/-! ### Checks -/

namespace Cost

variable {costs : Grid Float} {sentinel : Number} {fault : Fault}

theorem refuse_reported (p : Float → Bool) (cause : Nat → Nat → Float → MatrixFault) :
    ¬ Unreported (refuse costs p cause) fault := by
  unfold refuse
  split
  · exact Unreported.not_error rfl
  · exact Unreported.not_ok _

/-- What a check finds is reported, but cells that are fine so far need a sentinel to be compared
    with. -/
theorem check_unreported_iff :
    Unreported (check costs costs.height costs.width sentinel) fault ↔
      costs.isEmpty = false ∧ (∀ x ∈ costs.toList, x.isFinite = true ∧ ¬ x < 0.0) ∧
        sentinel.toDouble? = none ∧ fault = .tooLarge := by
  rw [check_eq]
  -- Without cells nothing is compared, and no sentinel is asked for.
  by_cases hempty : costs.isEmpty = true
  · simp [hempty, Unreported.ok_iff]
  · rw [if_neg hempty, checkCells]
    rw [Bool.not_eq_true] at hempty
    simp only [Unreported.bind_iff, refuse_reported, false_or, Unique.exists_iff,
      PUnit.default_eq_unit, refuse_eq_ok_iff, Bool.not_eq_false', decide_eq_false_iff_not,
      ← and_assoc, ← forall₂_and, hempty, true_and]
    rw [and_assoc]
    refine and_congr_right fun _ => ?_
    -- The cells are as they should be so far, and now the sentinel is needed.
    cases sentinel.toDouble? with
    | none => exact Unreported.error_iff.trans (by simp [Fault.isReportable])
    | some bound => simp [refuse_reported]

end Cost

namespace CostMatrix

/-! ### Parts of a document -/

/-- What the loader takes from a document. -/
structure Parts where
  costs : Datum
  workers : Datum
  jobs : Datum

/-- The parts of a mapping, or of nothing; any other document has none. -/
def Parts.ofDocument? (document : Datum) : Option Parts :=
  if document.truthy then
    match document.opened with
    | .mapping entries => some {
        costs := (Datum.lookup? "costs" entries).getD (.list [])
        workers := (Datum.lookup? "workers" entries).getD .null
        jobs := (Datum.lookup? "jobs" entries).getD .null }
    | _ => none
  else some { costs := .list [], workers := .null, jobs := .null }

theorem ofDocument_eq (place : Location) (document : Datum) : ofDocument place document =
    match Parts.ofDocument? document with
    | some parts => build (.rows parts.costs) parts.workers parts.jobs
    | none => .error (.matrix (.notMapping place.toString document.opened.kindName)) := by
  unfold ofDocument Parts.ofDocument?
  cases document.truthy with
  | false => rfl
  | true =>
      simp only [Bool.not_true, Bool.false_eq_true, if_false, if_true]
      cases document.opened with
      | mapping entries => rfl
      | _ => rfl

/-- Labels are given as items, or not at all. -/
def HasLabels (given : Datum) : Prop := given = .null ∨ given.items?.isSome = true

theorem labels_answersIf (given : Datum) (noun : String) (count : Nat) :
    AnswersIf (HasLabels given) .wrongKind (labels given noun count) := by
  unfold labels HasLabels
  split
  · exact Or.inl ⟨Or.inl rfl, _, rfl⟩
  · rename_i hnull
    cases given.items? with
    | none => exact Or.inr ⟨by simpa using hnull, rfl⟩
    | some items => exact Or.inl ⟨Or.inr rfl, items, rfl⟩

theorem check_sentinel_reported {costs : Grid Float} {fault : Fault} :
    ¬ Unreported (Cost.check costs costs.height costs.width sentinel) fault := by
  intro h
  rcases Cost.check_unreported_iff.mp h with ⟨_, _, hnone, _⟩
  exact absurd hnone nofun

theorem check_sentinel_iff {costs : Grid Float} :
    Cost.check costs costs.height costs.width sentinel = .ok () ↔ costs.Fits 1.0e9 :=
  Cost.check_eq_ok_iff rfl (by decide)

theorem counted_reported (costs : Grid Float) (workerIds jobIds : List Datum) {fault : Fault} :
    ¬ Unreported (do
      if workerIds.length ≠ costs.height ∨ jobIds.length ≠ costs.width then
        throw (.matrix (.labelCount workerIds.length jobIds.length costs.height costs.width))
      return ({ costs := costs, workerIds := workerIds, jobIds := jobIds } : CostMatrix))
      fault := by
  by_cases h : workerIds.length ≠ costs.height ∨ jobIds.length ≠ costs.width
  · rw [if_pos h]
    exact Unreported.not_error rfl
  · rw [if_neg h]
    exact Unreported.not_ok _

/-- A wrong number of labels is reported, and labels that are no labels are not. -/
theorem labelled_unreported_iff (costs : Grid Float) {workers jobs : Datum} {fault : Fault} :
    Unreported (do
      let workerIds ← labels workers "Worker" costs.height
      let jobIds ← labels jobs "Job" costs.width
      if workerIds.length ≠ costs.height ∨ jobIds.length ≠ costs.width then
        throw (.matrix (.labelCount workerIds.length jobIds.length costs.height costs.width))
      return ({ costs := costs, workerIds := workerIds, jobIds := jobIds } : CostMatrix)) fault ↔
      ¬ (HasLabels workers ∧ HasLabels jobs) ∧ fault = .wrongKind := by
  have hjobs : Unreported (labels jobs "Job" costs.width) fault ↔
      ¬ HasLabels jobs ∧ fault = .wrongKind :=
    Unreported.of_answersIf (labels_answersIf jobs "Job" costs.width) rfl
  have hworkers := labels_answersIf workers "Worker" costs.height
  simp only [Unreported.bind_iff, counted_reported, hjobs, and_false, exists_false, or_false,
    Unreported.of_answersIf hworkers rfl, exists_and_right, hworkers.ok_iff]
  -- The labels of the jobs are looked at only behind those of the workers.
  by_cases hgiven : HasLabels workers
  · simp [hgiven]
  · simp [hgiven]

/-- Costs with labels fail to be a matrix without a report if the costs fail to be a table so, or
    if the labels of a matrix that passes its check are no labels. -/
theorem build_unreported_iff {input : CostInput} {workers jobs : Datum} {fault : Fault} :
    Unreported (build input workers jobs) fault ↔
      Unreported (input.toGrid none none) fault ∨
      ∃ costs, input.toGrid none none = .ok costs ∧ costs.Fits 1.0e9 ∧
        ¬ (HasLabels workers ∧ HasLabels jobs) ∧ fault = .wrongKind := by
  unfold build
  rw [Unreported.bind_iff]
  -- The check of the loader has a sentinel with a double, so it drops out.
  simp only [Unreported.bind_iff (a := Cost.check _ _ _ _), check_sentinel_reported, false_or,
    Unique.exists_iff, PUnit.default_eq_unit, check_sentinel_iff, labelled_unreported_iff]

end CostMatrix

/-! ### Solves -/

/-- A solve reads a setting that has no double: the sentinel in its check, or a setting of the
    padded search behind it. Without costs no setting is read. -/
def Config.Overflows (config : Config) (method : Method) (costs : Grid Float) : Prop :=
  costs.isEmpty = false ∧
    (config.validates = true ∧ config.paddingSentinel.toDouble? = none ∨
      config.check costs = .ok () ∧ method = .padded ∧ ¬ config.IsInRange)

/-- A padded search that passes its check does not end. -/
def Config.IsEndless (config : Config) (method : Method) (costs : Grid Float) : Prop :=
  config.check costs = .ok () ∧ method = .padded ∧ costs.isEmpty = false ∧
    ∃ padding reach, config.paddingSentinel.toDouble? = some padding ∧
      config.searchInfinity.toDouble? = some reach ∧
      Padded.solve .double costs costs.height costs.width padding reach = .error .endless

section Solves

variable {library : Library Float} {config : Config} {costs : Grid Float} {fault : Fault}

theorem settingDouble_unreported_iff {n : Number} :
    Unreported (settingDouble n) fault ↔ n.toDouble? = none ∧ fault = .tooLarge := by
  rw [settingDouble]
  cases n.toDouble? with
  | none => simp [Unreported.error_iff, Fault.isReportable]
  | some y => simp [Unreported.ok_iff]

theorem Config.check_unreported_iff (hfits : costs.Fits 1.0e9) :
    Unreported (config.check costs) fault ↔ costs.isEmpty = false ∧ config.validates = true ∧
      config.paddingSentinel.toDouble? = none ∧ fault = .tooLarge := by
  have hcells : ∀ x ∈ costs.toList, x.isFinite = true ∧ ¬ x < 0.0 := by
    intro x hx
    rcases hfits x hx with ⟨hfinite, hnonneg, _⟩
    have hzero : (Binary64.key? 0.0).isSome := by decide
    exact ⟨hfinite, (Binary64.not_lt_iff (Binary64.isSome_key?_of_isFinite hfinite) hzero).mpr
      hnonneg⟩
  unfold check
  by_cases hvalid : config.validates = true
  · simp only [hvalid, if_true, Cost.check_unreported_iff, true_and]
    exact and_congr_right fun _ => and_iff_right hcells
  · simp [hvalid, Unreported.ok_iff]

theorem Padded.solve_unreported_iff {padding reach : Float} :
    Unreported (solve .double costs costs.height costs.width padding reach) fault ↔
      solve .double costs costs.height costs.width padding reach = .error .endless ∧
        fault = .endless := by
  rcases exists_outcome_or_endless .double costs padding reach with ⟨o, ho⟩ | hend
  · simp [ho, Unreported.ok_iff]
  · simp [hend, Unreported.error_iff, Fault.isReportable]

/-- The padded search fails without a report for a setting, or by not ending. -/
theorem Method.padded_unreported_iff :
    Unreported (padded.solvePrepared (.doubles library) costs (Settings.ofConfig config)) fault ↔
      costs.isEmpty = false ∧ (¬ config.IsInRange ∧ fault = .tooLarge ∨
        (∃ padding reach, config.paddingSentinel.toDouble? = some padding ∧
          config.searchInfinity.toDouble? = some reach ∧
          Padded.solve .double costs costs.height costs.width padding reach = .error .endless) ∧
        fault = .endless) := by
  -- The padded search asks no library, so none is left in what follows.
  have hdouble : (Tools.doubles library).arithmetic = Arithmetic.double := rfl
  rw [solvePrepared, hdouble]
  by_cases hempty : costs.height = 0 ∨ costs.width = 0
  · rw [searchPrepared, if_pos hempty, Padded.solve, if_pos hempty]
    rcases (@Matching.inside_unassigned costs.height costs.width).exists_outcome .double [] []
      with ⟨o, ho⟩
    rw [ho, Unreported.ok_iff, (costs.isEmpty_iff).mpr hempty]
    simp
  · have hfull : costs.isEmpty = false := by
      rw [← Bool.not_eq_true, costs.isEmpty_iff]
      exact hempty
    rw [searchPrepared_own _ _ hempty, hfull]
    simp only [Settings.ofConfig, Unreported.bind_iff, settingDouble_unreported_iff,
      settingDouble_eq_ok_iff, Padded.solve_unreported_iff, true_and, Config.IsInRange]
    -- One setting after the other is read, and the search comes last.
    cases config.paddingSentinel.toDouble? with
    | none => simp
    | some padding =>
        cases config.searchInfinity.toDouble? with
        | none => simp
        | some reach => simp

/-- An exhaustive search is reported to be too large, and fails for nothing else. -/
theorem Method.exhaustive_reported :
    ¬ Unreported (exhaustive.solvePrepared (.doubles library) costs (Settings.ofConfig config))
      fault := by
  rintro ⟨hfault, hunreported⟩
  have hanswers : Answers library config costs .exhaustive (.error fault) :=
    hfault ▸ exhaustive_answers
  cases hanswers.2 with
  | tooMany h => exact absurd hunreported (by simp [Fault.isReportable])

/-- A matrix fails to be solved without a report for a setting, or as the search does not end. -/
theorem Solver.answer_unreported_iff {name : String} {method : Method}
    (hname : Method.ofName? name = some method) (hmethod : method = .padded ∨ method = .exhaustive)
    (hfits : costs.Fits 1.0e9) :
    Unreported (answer library name config (CostMatrix.gridInput costs)) fault ↔
      config.Overflows method costs ∧ fault = .tooLarge ∨
      config.IsEndless method costs ∧ fault = .endless := by
  rw [answer_eq (CostMatrix.toGrid_gridInput costs) hname]
  simp only [Unreported.bind_iff, Config.check_unreported_iff hfits, Unique.exists_iff,
    PUnit.default_eq_unit]
  unfold Config.Overflows Config.IsEndless
  rcases hmethod with rfl | rfl
  · rw [Method.padded_unreported_iff]
    -- A setting without a double is met in the check, or else by the search behind it.
    constructor
    · rintro (⟨hfull, hvalid, hnone, rfl⟩ | ⟨hcheck, hfull, ⟨hrange, rfl⟩ | ⟨hend, rfl⟩⟩)
      · exact Or.inl ⟨⟨hfull, Or.inl ⟨hvalid, hnone⟩⟩, rfl⟩
      · exact Or.inl ⟨⟨hfull, Or.inr ⟨hcheck, rfl, hrange⟩⟩, rfl⟩
      · exact Or.inr ⟨⟨hcheck, rfl, hfull, hend⟩, rfl⟩
    · rintro (⟨⟨hfull, ⟨hvalid, hnone⟩ | ⟨hcheck, _, hrange⟩⟩, rfl⟩ |
        ⟨⟨hcheck, _, hfull, hend⟩, rfl⟩)
      · exact Or.inl ⟨hfull, hvalid, hnone, rfl⟩
      · exact Or.inr ⟨hcheck, hfull, Or.inl ⟨hrange, rfl⟩⟩
      · exact Or.inr ⟨hcheck, hfull, Or.inr ⟨hend, rfl⟩⟩
  · simp only [Method.exhaustive_reported, and_false, or_false, reduceCtorEq, false_and, and_assoc]

end Solves

/-! ### The program -/

namespace Program.Assign

open CostMatrix (Parts HasLabels)

/-- The faults that a document comes to without a report, with a configuration and a method. -/
inductive Escapes (config : Config) (method : Method) (document : Datum) : Fault → Prop
  /-- The costs, or one of their rows, cannot be walked. -/
  | table {parts : Parts} (hparts : Parts.ofDocument? document = some parts)
    (h : ¬ CostInput.IsTable parts.costs) : Escapes config method document .wrongKind
  /-- The first leaf without a double is an integer beyond all doubles, or no scalar. -/
  | leaf {parts : Parts} {rows : List (List Datum)} {fault : Fault}
    (hparts : Parts.ofDocument? document = some parts)
    (hrows : CostInput.splitRows parts.costs = .ok rows) (h : CostInput.Strays rows fault) :
    Escapes config method document fault
  /-- The costs pass the loader, but the labels cannot be walked. -/
  | labels {parts : Parts} {costs : Grid Float}
    (hparts : Parts.ofDocument? document = some parts)
    (hgrid : (CostInput.rows parts.costs).toGrid none none = .ok costs)
    (hfits : costs.Fits 1.0e9) (h : ¬ (HasLabels parts.workers ∧ HasLabels parts.jobs)) :
    Escapes config method document .wrongKind
  /-- There is a matrix, but a setting has no double. -/
  | setting {parts : Parts} {matrix : CostMatrix}
    (hparts : Parts.ofDocument? document = some parts)
    (hbuild : CostMatrix.build (.rows parts.costs) parts.workers parts.jobs = .ok matrix)
    (h : config.Overflows method matrix.costs) : Escapes config method document .tooLarge
  /-- There is a matrix, but the search does not end. -/
  | search {parts : Parts} {matrix : CostMatrix}
    (hparts : Parts.ofDocument? document = some parts)
    (hbuild : CostMatrix.build (.rows parts.costs) parts.workers parts.jobs = .ok matrix)
    (h : config.IsEndless method matrix.costs) : Escapes config method document .endless

/-- A command line names a configuration and the file of a document. -/
structure Opens (look : Location → Entry) (words : List String) (request : Request)
    (config : Config) (said : String) (document : Datum) : Prop where
  words : Request.ofWords words = .ok request
  config : readConfig look (Location.ofString request.config) = .ok (config, said)
  named : request.matrix ≠ ""
  ending : CostMatrix.documentEndings.contains (Location.ofString request.matrix).extension = true
  read : readText look (Location.ofString request.matrix) >>= Yaml.read = .ok document

variable {library : Library Float} {renderer : Figure.Renderer} {look : Location → Entry}
  {words : List String} {request : Request} {config : Config} {said : String} {document : Datum}
  {fault : Fault} {method : Method}

theorem fits_of_build {input : CostInput} {workers jobs : Datum} {matrix : CostMatrix}
    (h : CostMatrix.build input workers jobs = .ok matrix) : matrix.costs.Fits 1.0e9 := by
  unfold CostMatrix.build at h
  simp only [bind_eq_ok_iff, guarded_eq_ok_iff] at h
  rcases h with ⟨costs, _, _, hcheck, workerIds, _, jobIds, _, _, h⟩
  rcases Except.ok.inj h with rfl
  exact CostMatrix.check_sentinel_iff.mp hcheck

theorem solveMatrix_eq (name : String) (config : Config) (matrix : CostMatrix) :
    solveMatrix library name config matrix =
      (Solver.answer library name config (CostMatrix.gridInput matrix.costs)).map fun o =>
        { matrix := matrix, outcome := o } := by
  unfold solveMatrix Solver.answer
  cases Solver.create name config with
  | error fault => rfl
  | ok solver => rfl

variable (library) in
/-- A document fails to be a matrix, or to be solved, without a report in one of these ways. -/
theorem escapes_iff {place : Location} {name : String} (hname : Method.ofName? name = some method)
    (hmethod : method = .padded ∨ method = .exhaustive) :
    Escapes config method document fault ↔
      Unreported (CostMatrix.ofDocument place document >>= solveMatrix library name config)
        fault := by
  have hsolve : ∀ matrix : CostMatrix, matrix.costs.Fits 1.0e9 →
      (Unreported (solveMatrix library name config matrix) fault ↔
        config.Overflows method matrix.costs ∧ fault = .tooLarge ∨
        config.IsEndless method matrix.costs ∧ fault = .endless) := by
    intro matrix hfits
    rw [solveMatrix_eq, Unreported.map_iff]
    exact Solver.answer_unreported_iff hname hmethod hfits
  rw [Unreported.bind_iff, CostMatrix.ofDocument_eq]
  constructor
  · -- Every way out ends a step of its own.
    intro h
    cases h with
    | table hparts h =>
        rw [hparts]
        refine Or.inl (CostMatrix.build_unreported_iff.mpr (Or.inl ?_))
        exact CostInput.toGrid_unreported_iff.mpr (Or.inl ⟨h, rfl⟩)
    | leaf hparts hrows h =>
        rw [hparts]
        refine Or.inl (CostMatrix.build_unreported_iff.mpr (Or.inl ?_))
        exact CostInput.toGrid_unreported_iff.mpr (Or.inr ⟨_, hrows, h⟩)
    | labels hparts hgrid hfits h =>
        rw [hparts]
        exact Or.inl (CostMatrix.build_unreported_iff.mpr (Or.inr ⟨_, hgrid, hfits, h, rfl⟩))
    | setting hparts hbuild h =>
        rw [hparts]
        exact Or.inr ⟨_, hbuild, (hsolve _ (fits_of_build hbuild)).mpr (Or.inl ⟨h, rfl⟩)⟩
    | search hparts hbuild h =>
        rw [hparts]
        exact Or.inr ⟨_, hbuild, (hsolve _ (fits_of_build hbuild)).mpr (Or.inr ⟨h, rfl⟩)⟩
  · -- Conversely, a step that fails without a report does so in one of these ways.
    cases hparts : CostMatrix.Parts.ofDocument? document with
    | none =>
        rintro (h | ⟨matrix, h, _⟩)
        · exact absurd h (Unreported.not_error rfl)
        · exact absurd h (by simp)
    | some parts =>
        rintro (hmatrix | ⟨matrix, hbuild, houtcome⟩)
        · rcases CostMatrix.build_unreported_iff.mp hmatrix with
            hgrid | ⟨costs, hgrid, hfits, hlabels, rfl⟩
          · rcases CostInput.toGrid_unreported_iff.mp hgrid with
              ⟨htable, rfl⟩ | ⟨rows, hrows, hstrays⟩
            · exact .table hparts htable
            · exact .leaf hparts hrows hstrays
          · exact .labels hparts hgrid hfits hlabels
        · rcases (hsolve matrix (fits_of_build hbuild)).mp houtcome with
            ⟨hsetting, rfl⟩ | ⟨hend, rfl⟩
          · exact .setting hparts hbuild hsetting
          · exact .search hparts hbuild hend

/-- If nothing strays, the labels can be walked and the settings have doubles, then only a search
    without an end is left. -/
theorem Escapes.eq_endless {parts : Parts} (h : Escapes config method document fault)
    (hparts : Parts.ofDocument? document = some parts) (htable : CostInput.IsTable parts.costs)
    (hleaves : ∀ rows, CostInput.splitRows parts.costs = .ok rows →
      ∀ leaf ∈ Tensor.leaves (.list (rows.map .list)), ∀ fault, ¬ Tensor.Stray leaf fault)
    (hlabels : HasLabels parts.workers ∧ HasLabels parts.jobs) (hrange : config.IsInRange) :
    method = .padded ∧ fault = .endless := by
  cases h with
  | table hparts' h =>
      rcases Option.some.inj (hparts.symm.trans hparts') with rfl
      exact absurd htable h
  | leaf hparts' hrows h =>
      rcases Option.some.inj (hparts.symm.trans hparts') with rfl
      rcases h.leaf with ⟨before, leaf, after, hall, _, hstray⟩
      exact absurd hstray (hleaves _ hrows leaf (by simp [hall]) _)
  | labels hparts' hgrid hfits h =>
      rcases Option.some.inj (hparts.symm.trans hparts') with rfl
      exact absurd hlabels h
  | setting hparts' hbuild h =>
      rcases h.2 with ⟨_, hnone⟩ | ⟨_, _, h⟩
      · exact absurd hrange.1 (by simp [hnone])
      · exact absurd hrange h
  | search hparts' hbuild h => exact ⟨h.2.1, rfl⟩

section

variable (h : Opens look words request config said document)
include h

variable (library) in
/-- Loading and solving need nothing of the file but its document. -/
theorem Opens.loadAndSolve_eq : loadAndSolve library look request.matrix request.solver config =
    CostMatrix.ofDocument (Location.ofString request.matrix) document >>=
      solveMatrix library request.solver config := by
  rcases bind_eq_ok_iff.mp h.read with ⟨text, htext, hread⟩
  -- The ending tells that this is a document, and its text has been read.
  have hmatrix : readMatrix look request.matrix =
      CostMatrix.ofDocument (Location.ofString request.matrix) document := by
    unfold readMatrix
    rw [if_neg (by simpa using h.named), CostMatrix.load, if_pos h.ending, htext]
    simp only [bind, Except.bind, hread]
  rw [loadAndSolve, hmatrix]

variable (renderer) in
/-- With a fault, the program reports it or ends with it. -/
theorem Opens.run_of_error
    (hfault : loadAndSolve library look request.matrix request.solver config = .error fault) :
    run library renderer look words =
      if fault.isReportable then .ok (failure said fault) else .error fault := by
  unfold run runRequest
  simp only [h.words, h.config, hfault, bind, Except.bind]
  rfl

end

/-- For every document, the program ends with a fault exactly if the document escapes with it.
    All other documents are solved, or the program reports what is wrong and ends with the code
    of failure. If its parts are of the kinds that they should be, and the settings have doubles,
    then a document escapes at most by a search without an end. The two methods ask no library, so
    it does not matter which one the program is run with. -/
theorem run_of_document (library : Library Float) (renderer : Figure.Renderer)
    (h : Opens look words request config said document)
    (hname : Method.ofName? request.solver = some method)
    (hmethod : method = .padded ∨ method = .exhaustive) :
    (∀ fault, Escapes config method document fault →
      loadAndSolve library look request.matrix request.solver config = .error fault ∧
        run library renderer look words = .error fault) ∧
    ((∀ fault, ¬ Escapes config method document fault) →
      (∃ solved, loadAndSolve library look request.matrix request.solver config = .ok solved) ∨
      ∃ fault, loadAndSolve library look request.matrix request.solver config = .error fault ∧
        run library renderer look words = .ok (failure said fault) ∧
          (failure said fault).code = failureCode) ∧
    ∀ parts, Parts.ofDocument? document = some parts → CostInput.IsTable parts.costs →
      (∀ rows, CostInput.splitRows parts.costs = .ok rows →
        ∀ leaf ∈ Tensor.leaves (.list (rows.map .list)), ∀ fault, ¬ Tensor.Stray leaf fault) →
      HasLabels parts.workers → HasLabels parts.jobs → config.IsInRange →
      ∀ fault, Escapes config method document fault → method = .padded ∧ fault = .endless := by
  -- To escape is to fail without a report, so the program splits by the kind of its fault.
  have hescapes : ∀ fault, Escapes config method document fault ↔
      Unreported (loadAndSolve library look request.matrix request.solver config) fault := by
    intro fault
    rw [h.loadAndSolve_eq]
    exact escapes_iff library hname hmethod
  refine ⟨fun fault hfault => ?_, fun hnone => ?_, ?_⟩
  · rcases (hescapes fault).mp hfault with ⟨hload, hunreported⟩
    refine ⟨hload, ?_⟩
    rw [h.run_of_error renderer hload, hunreported, if_neg Bool.false_ne_true]
  · cases hload : loadAndSolve library look request.matrix request.solver config with
    | ok solved => exact Or.inl ⟨solved, rfl⟩
    | error fault =>
        have hreported : fault.isReportable = true := by
          by_contra hunreported
          exact hnone fault ((hescapes fault).mpr ⟨hload, Bool.not_eq_true _ ▸ hunreported⟩)
        refine Or.inr ⟨fault, rfl, ?_, rfl⟩
        rw [h.run_of_error renderer hload, if_pos hreported]
  · intro parts hparts htable hleaves hworkers hjobs hrange fault hfault
    exact hfault.eq_endless hparts htable hleaves ⟨hworkers, hjobs⟩ hrange

/-! ### A number in the place of rows -/

/-- A document with a number in the place of rows, and one with a word in the place of a cost. -/
def bareAndWorded (place : Location) : Entry :=
  if place = { slashes := 0, names := ["m.yaml"] } then .file "\"costs\": 5\n"
  else if place = { slashes := 0, names := ["w.yaml"] } then
    .file "\"costs\": [[\"five\"]]\n"
  else .missing

/-- The request that is made by the name of a matrix alone. -/
def plainRequest (name : String) : Request where
  config := defaultConfig
  matrix := name
  solver := Method.name .padded
  plot := ""
  verbose := false

/-- What is said if there is no configuration. -/
def unconfigured : String :=
  "Config " ++ (Location.ofString defaultConfig).toString ++ " not found, using defaults"

theorem exists_opens {name text : String} {p : Datum → Bool}
    (hwords : (Request.ofWords ["--matrix", name]).toOption = some (plainRequest name))
    (hname : '/' ∉ name.toList ∧ name ≠ "" ∧ name ≠ ".")
    (hending : CostMatrix.documentEndings.contains
      (Location.extension { slashes := 0, names := [name] }) = true)
    (htext : readText bareAndWorded { slashes := 0, names := [name] } = .ok text)
    (hread : (Yaml.read text).toOption.any p = true) :
    ∃ document, Opens bareAndWorded ["--matrix", name] (plainRequest name) Config.default
      unconfigured document ∧ p document = true := by
  have hlength : (Location.ofString defaultConfig).names.length = 2 := by
    rw [Location.ofString_names]
    decide
  have hother : ∀ name, (Location.ofString defaultConfig).names ≠ [name] := by
    intro name hnames
    exact absurd (hnames ▸ hlength) (by simp)
  have hconfig : readConfig bareAndWorded (Location.ofString defaultConfig) =
      .ok (Config.default, unconfigured) := by
    have hm := hother "m.yaml"
    have hw := hother "w.yaml"
    rw [readConfig, bareAndWorded, if_neg fun h => hm (congrArg Location.names h),
      if_neg fun h => hw (congrArg Location.names h)]
    rfl
  have hplace := Location.ofString_name hname.1 hname.2.1 hname.2.2
  rcases (Option.any_eq_true _ _).mp hread with ⟨document, hdocument, hp⟩
  refine ⟨document, ⟨toOption_eq_some_iff.mp hwords, hconfig, hname.2.1, ?_, ?_⟩, hp⟩
  · rw [plainRequest, hplace]
    exact hending
  · rw [plainRequest, hplace]
    exact bind_eq_ok_iff.mpr ⟨text, htext, toOption_eq_some_iff.mp hdocument⟩

/-- Whether the costs of a document have no items. -/
def hasBareCosts (document : Datum) : Bool :=
  (Parts.ofDocument? document).any fun parts => parts.costs.items?.isNone

theorem escapes_of_hasBareCosts (h : hasBareCosts document = true) :
    Escapes config method document .wrongKind := by
  rcases (Option.any_eq_true _ _).mp h with ⟨parts, hparts, hbare⟩
  refine .table hparts fun htable => ?_
  rcases htable with ⟨found, hfound, _⟩
  rw [hfound] at hbare
  exact absurd hbare Bool.false_ne_true

theorem exists_bareCosts : ∃ document,
    Opens bareAndWorded ["--matrix", "m.yaml"] (plainRequest "m.yaml") Config.default unconfigured
      document ∧ Escapes Config.default .padded document .wrongKind := by
  rcases @exists_opens "m.yaml" _ hasBareCosts (by decide +kernel) (by decide) (by decide +kernel)
    rfl (by decide +kernel) with ⟨document, h, hbare⟩
  exact ⟨document, h, escapes_of_hasBareCosts hbare⟩

/-- A number cannot be walked, and no one is told: the program ends with the fault. -/
theorem run_bareCosts : ∃ document,
    Opens bareAndWorded ["--matrix", "m.yaml"] (plainRequest "m.yaml") Config.default unconfigured
      document ∧
    run Reference.library Figure.boundless bareAndWorded ["--matrix", "m.yaml"] =
      .error .wrongKind := by
  rcases exists_bareCosts with ⟨document, h, hescapes⟩
  have hname : Method.ofName? (plainRequest "m.yaml").solver = some .padded := rfl
  rcases (escapes_iff Reference.library hname (Or.inl rfl)).mp hescapes with
    ⟨hload, hunreported⟩
  refine ⟨document, h, ?_⟩
  rw [h.run_of_error _ ((h.loadAndSolve_eq _).trans hload), hunreported, if_neg Bool.false_ne_true]

/-- Whether a step fails with a fault that is reported. -/
def isReported {α : Type} : Except Fault α → Bool
  | .error fault => fault.isReportable
  | .ok _ => false

/-- The number in the place of rows ends the program, and the word in the place of a cost is
    reported. -/
theorem run_of_document_bareAndWorded :
    (∃ document,
      Opens bareAndWorded ["--matrix", "m.yaml"] (plainRequest "m.yaml") Config.default
        unconfigured document ∧
      Escapes Config.default .padded document .wrongKind ∧
      run Reference.library Figure.boundless bareAndWorded ["--matrix", "m.yaml"] =
        .error .wrongKind) ∧
    ∃ document,
      Opens bareAndWorded ["--matrix", "w.yaml"] (plainRequest "w.yaml") Config.default
        unconfigured document ∧
      (∀ fault, ¬ Escapes Config.default .padded document fault) ∧
      ∃ fault, run Reference.library Figure.boundless bareAndWorded ["--matrix", "w.yaml"] =
        .ok (failure unconfigured fault) := by
  constructor
  · rcases exists_bareCosts with ⟨document, h, hescapes⟩
    exact ⟨document, h, hescapes, ((run_of_document _ _ h rfl (Or.inl rfl)).1 _ hescapes).2⟩
  · rcases @exists_opens "w.yaml" _ (fun document => isReported
        (CostMatrix.ofDocument { slashes := 0, names := ["w.yaml"] } document >>=
          solveMatrix Reference.library (Method.name .padded) Config.default)) (by decide +kernel)
      (by decide) (by decide +kernel) rfl (by decide +kernel) with ⟨document, h, hreported⟩
    have hname : Method.ofName? (plainRequest "w.yaml").solver = some .padded := rfl
    have hload := h.loadAndSolve_eq Reference.library
    have hplace : Location.ofString (plainRequest "w.yaml").matrix =
        { slashes := 0, names := ["w.yaml"] } :=
      Location.ofString_name (by decide) (by decide) (by decide)
    rw [hplace] at hload
    have hreported : isReported (loadAndSolve Reference.library bareAndWorded
        (plainRequest "w.yaml").matrix (plainRequest "w.yaml").solver Config.default) = true :=
      hload ▸ hreported
    -- What is reported does not escape.
    have hkept : ∀ fault, ¬ Escapes Config.default .padded document fault := by
      intro fault hescapes
      rw [escapes_iff Reference.library hname (Or.inl rfl), ← h.loadAndSolve_eq]
        at hescapes
      rw [hescapes.1] at hreported
      exact absurd (hescapes.2.symm.trans hreported) Bool.false_ne_true
    refine ⟨document, h, hkept, ?_⟩
    have hrun := run_of_document Reference.library Figure.boundless h hname (Or.inl rfl)
    rcases hrun.2.1 hkept with
      ⟨solved, hsolved⟩ | ⟨fault, _, hrun, _⟩
    · rw [hsolved] at hreported
      exact absurd hreported Bool.false_ne_true
    · exact ⟨fault, hrun⟩

end Program.Assign

end Roster
