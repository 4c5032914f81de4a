import Roster.Proofs.Fallible
import Roster.Proofs.Pairing.Inside
import Roster.Report

/-!
# Outcomes That Can Be Reported

A report looks up a label for each job and each matched worker, and the cost of their cell.
All of these are there if the matching lies inside the matrix. What is left to the labels is
whether they can be shown, and a report shows them in two ways. The line of a job takes any
label that can be written, which an integer may be too long for. The line of the workers left
over joins its labels, and takes nothing but texts.

So a report fails for one of two reasons, and the first is asked about first.

## Main definitions

* `Grid.tensor`: The cells of a table as an array.
* `CostMatrix.IsSized`: A label for each worker and each job.
* `CostMatrix.IsLabelled`: A text for each worker and each job.
* `CostMatrix.ShowsLines`, `CostMatrix.ShowsIdle`: Labels that the lines of a report can show.
* `Report.ShowsLine`: Labels that the line of one job can show.

## Theorems

* `CostMatrix.shows_of_isText`: Texts can be shown in all lines.
* `Report.jobLines_all_answersIf`, `Report.idleLine_answersIf`: When there are lines.
* `Report.ofMatrix_ok_iff`: When there is a report.
* `Report.ofMatrix_error_iff`: Why there is none.
* `Report.exists_ofMatrix`: With texts for labels there is a report.
-/

namespace Roster

/-- The cells of a table as an array. -/
def Grid.tensor (g : Grid Float) : Tensor := { shape := [g.height, g.width], entries := g.toList }

/-- Whether a datum is a text, with a character for each of its codes or not. -/
def Datum.isText : Datum → Bool
  | .text _ => true
  | .codes _ => true
  | _ => false

theorem Datum.isWritable_of_isText {d : Datum} (h : d.isText = true) : d.isWritable = true := by
  unfold isText at h
  split at h
  · rfl
  · rfl
  · exact absurd h Bool.false_ne_true

namespace CostMatrix

/-- There is a label for each worker and for each job. -/
structure IsSized (matrix : CostMatrix) : Prop where
  workers : matrix.workerIds.length = matrix.costs.height
  jobs : matrix.jobIds.length = matrix.costs.width

/-- There is a label for each worker and for each job, and all of them are texts. -/
structure IsLabelled (matrix : CostMatrix) : Prop extends IsSized matrix where
  workerText : ∀ label ∈ matrix.workerIds, ∃ text, label = .text text
  jobText : ∀ label ∈ matrix.jobIds, ∃ text, label = .text text

/-- The labels of all jobs, and of the workers of a matching, can be written. -/
structure ShowsLines (matrix : CostMatrix) (M : Matching) : Prop where
  jobs : ∀ label ∈ matrix.jobIds, label.isWritable = true
  workers : ∀ w : Nat, (w : Int) ∈ M → ∀ label, matrix.workerIds[w]? = some label →
    label.isWritable = true

/-- The labels of some workers are texts. -/
def ShowsIdle (matrix : CostMatrix) (idle : List Nat) : Prop :=
  ∀ w ∈ idle, ∀ label, matrix.workerIds[w]? = some label → label.isText = true

variable {matrix : CostMatrix}

/-- Texts can be shown in all lines. -/
theorem shows_of_isText (h : ∀ label ∈ matrix.workerIds ++ matrix.jobIds, label.isText = true)
    (M : Matching) (idle : List Nat) : matrix.ShowsLines M ∧ matrix.ShowsIdle idle := by
  rw [List.forall_mem_append] at h
  have hworker : ∀ (w : Nat) label, matrix.workerIds[w]? = some label → label.isText = true :=
    fun w label hlabel => h.1 label (List.mem_of_getElem? hlabel)
  refine ⟨⟨fun label hlabel => Datum.isWritable_of_isText (h.2 label hlabel), ?_⟩, ?_⟩
  -- A text can always be written, so texts serve for both kinds of lines.
  · exact fun w _ label hlabel => Datum.isWritable_of_isText (hworker w label hlabel)
  · exact fun w _ => hworker w

theorem IsLabelled.isText (h : matrix.IsLabelled) :
    ∀ label ∈ matrix.workerIds ++ matrix.jobIds, label.isText = true := by
  rw [List.forall_mem_append]
  constructor
  · intro label hlabel
    rcases h.workerText label hlabel with ⟨text, rfl⟩
    rfl
  · intro label hlabel
    rcases h.jobText label hlabel with ⟨text, rfl⟩
    rfl

end CostMatrix

namespace Report

/-! ### Labels and cells -/

/-- An index of a list of labels has its label. -/
theorem label_eq (noun : String) {labels : List Datum} {i : Nat} (hi : i < labels.length) :
    label (some labels) noun (.number (.whole i)) = .ok labels[i] := by
  have hneg : ¬ (i : Int) < 0 := by omega
  simp [label, labelAt, hneg, hi]

/-- A cell of a matrix has a text. -/
theorem exists_costText (g : Grid Float) {w j : Nat} (hw : w < g.height) (hj : j < g.width) :
    ∃ text, costText g.tensor (.number (.whole w)) j =
      .ok text := by
  -- The array is flat, and the cell lies at its position in row order.
  have hlen : w * g.width + j < g.toList.length := by
    rw [Grid.toList, Vector.length_toList]
    exact (Grid.position (⟨w, hw⟩ : Fin g.height) (⟨j, hj⟩ : Fin g.width)).isLt
  have hin : ¬ (g.height ≤ w ∨ g.width ≤ j) := by omega
  simp [costText, Grid.tensor, hin, List.getElem?_eq_getElem hlen]

theorem isWorker_whole (w : Int) :
    Matching.isWorker (.number (.whole w)) = .ok (decide (0 ≤ w)) := by
  unfold Matching.isWorker Number.atMost Number.compare? Number.asNumeral
  rcases lt_trichotomy 0 w with h | h | h
  · simp [compare_lt_iff_lt.mpr h, h.le]
  · simp [← h]
  · simp [compare_gt_iff_gt.mpr h, not_le.mpr h]

theorem shown_answersIf (label : Datum) :
    AnswersIf (label.isWritable = true) (.overlongInteger none) (shown label) := by
  unfold shown
  split
  · rename_i h
    exact Or.inl ⟨h, _, rfl⟩
  · rename_i h
    exact Or.inr ⟨h, rfl⟩

theorem asText_answersIf (label : Datum) :
    AnswersIf (label.isText = true) .wrongKind (asText label) := by
  cases label with
  | text s => exact (AnswersIf.ok _).congr (by simp [Datum.isText])
  -- A text that is no sequence of characters can still be joined.
  | codes ns => exact (AnswersIf.ok _).congr (by simp [Datum.isText])
  | _ => exact Or.inr ⟨nofun, rfl⟩

/-! ### Lines -/

variable {matrix : CostMatrix}

/-- The labels in the line of a job can be written: that of the job, and that of its worker if
    it has one. -/
def ShowsLine (matrix : CostMatrix) (j : Nat) (w : Int) : Prop :=
  (∀ label, matrix.jobIds[j]? = some label → label.isWritable = true) ∧
    ∀ k : Nat, w = k → ∀ label, matrix.workerIds[k]? = some label → label.isWritable = true

/-- A job has a line if its labels can be written. -/
theorem jobLine_answersIf (h : matrix.IsSized) {j : Nat} (hj : j < matrix.costs.width) {w : Int}
    (hw : w < matrix.costs.height) :
    AnswersIf (ShowsLine matrix j w) (.overlongInteger none)
      (jobLine matrix.costs.tensor (some matrix.workerIds) (some matrix.jobIds) j
        (.number (.whole w))) := by
  have hj' : j < matrix.jobIds.length := h.jobs ▸ hj
  -- There is exactly one label for the job, so a condition on all of them is one on it.
  have hjob : AnswersIf (∀ label, matrix.jobIds[j]? = some label → label.isWritable = true)
      (.overlongInteger none) (shown matrix.jobIds[j]) :=
    (shown_answersIf _).congr (by simp [hj'])
  unfold jobLine
  rw [label_eq "Job" hj', isWorker_whole]
  by_cases hpos : 0 ≤ w
  -- A job with a worker shows both labels, in this order, and both with the same fault.
  · obtain ⟨k, rfl⟩ := Int.eq_ofNat_of_zero_le hpos
    have hk : k < matrix.costs.height := Int.ofNat_lt.mp hw
    have hk' : k < matrix.workerIds.length := h.workers ▸ hk
    rcases exists_costText matrix.costs hk hj with ⟨cost, hcost⟩
    have hworker : AnswersIf (∀ i : Nat, (k : Int) = i → ∀ label,
        matrix.workerIds[i]? = some label → label.isWritable = true)
        (.overlongInteger none) (shown matrix.workerIds[k]) :=
      (shown_answersIf _).congr (by simp [hk'])
    have hline := hjob.bind fun job =>
      hworker.map (g := fun worker => job ++ " -> " ++ worker ++ " (Cost = " ++ cost ++ ")")
    rw [label_eq "Worker" hk', hcost, decide_eq_true hpos]
    exact hline
  -- A job without one shows its own label only.
  · have hnone : ∀ k : Nat, w = k → ∀ label, matrix.workerIds[k]? = some label →
        label.isWritable = true := fun k hk => by omega
    have hline := (hjob.map (g := fun job => job ++ " -> unassigned")).congr
      (and_iff_left hnone).symm
    rw [decide_eq_false hpos]
    exact hline

/-- The jobs from some job on have lines if their labels can be written. -/
theorem jobLines_answersIf (h : matrix.IsSized) {M : Matching} {j : Nat}
    (hj : j + M.length ≤ matrix.costs.width) (hlt : ∀ w ∈ M, w < matrix.costs.height) :
    AnswersIf (∀ (k : Nat) (w : Int), M[k]? = some w → ShowsLine matrix (j + k) w)
      (.overlongInteger none)
      (jobLines matrix.costs.tensor (some matrix.workerIds) (some matrix.jobIds) j
        (M.map fun w => .number (.whole w))) := by
  induction M generalizing j with
  | nil => exact (AnswersIf.ok _).congr (by simp)
  | cons w rest ih =>
      rw [List.length_cons] at hj
      rw [List.map_cons, jobLines]
      have hline := jobLine_answersIf h (show j < matrix.costs.width by omega)
        (hlt w List.mem_cons_self)
      have hothers := ih (show j + 1 + rest.length ≤ matrix.costs.width by omega)
        fun v hv => hlt v (List.mem_cons_of_mem w hv)
      -- The condition on all jobs is that on the first with those on the later ones, one place on.
      refine (hline.bind fun line => hothers.map (g := fun others => line :: others)).congr ?_
      constructor
      · rintro ⟨hfirst, hlater⟩ k v hv
        cases k with
        | zero =>
            rcases Option.some.inj hv with rfl
            exact hfirst
        | succ k =>
            rw [Nat.add_comm k, ← Nat.add_assoc]
            exact hlater k v hv
      · intro hall
        refine ⟨hall 0 w rfl, fun k v hv => ?_⟩
        rw [Nat.add_assoc, Nat.add_comm 1]
        exact hall (k + 1) v hv

/-- There are lines for all jobs if the labels of the jobs, and of the workers in the matching,
    can be written. -/
theorem jobLines_all_answersIf (h : matrix.IsSized) {M : Matching}
    (hin : M.Inside matrix.costs.height matrix.costs.width) :
    AnswersIf (matrix.ShowsLines M) (.overlongInteger none)
      (jobLines matrix.costs.tensor (some matrix.workerIds) (some matrix.jobIds) 0
        (M.map fun w => .number (.whole w))) := by
  -- Job by job, or first all jobs and then all workers of the matching: it is the same labels.
  refine (jobLines_answersIf h (by rw [hin.length, Nat.zero_add]) hin.lt).congr ?_
  simp only [Nat.zero_add]
  constructor
  · refine fun hall => ⟨fun label hlabel => ?_, fun w hw => ?_⟩
    · rcases List.getElem?_of_mem hlabel with ⟨j, hj⟩
      have hlt : j < M.length := by
        rw [hin.length, ← h.jobs]
        exact (List.getElem?_eq_some_iff.mp hj).1
      exact (hall j M[j] (List.getElem?_eq_getElem hlt)).1 label hj
    · rcases List.getElem?_of_mem hw with ⟨j, hj⟩
      exact (hall j w hj).2 w rfl
  · rintro ⟨hjobs, hworkers⟩ j w hw
    refine ⟨fun label hlabel => hjobs label (List.mem_of_getElem? hlabel), ?_⟩
    rintro k rfl
    exact hworkers k (List.mem_of_getElem? hw)

/-- The workers left over have a line if their labels are texts. -/
theorem idleLine_answersIf (h : matrix.IsSized) {idle : List Nat}
    (hidle : ∀ w ∈ idle, w < matrix.costs.height) :
    AnswersIf (matrix.ShowsIdle idle) .wrongKind
      (idleLine (some matrix.workerIds) (idle.map fun (w : Nat) => .number (.whole w))) := by
  -- Looking the labels up cannot fail. What can is to join what is no text.
  have hlabels : (idle.map fun (w : Nat) => Datum.number (.whole w)).mapM
      (label (some matrix.workerIds) "Worker") =
        .ok (idle.map fun w => (matrix.workerIds[w]?).getD .null) := by
    rw [List.mapM_map]
    refine mapM_eq_map fun w hw => ?_
    have hlt : w < matrix.workerIds.length := h.workers ▸ hidle w hw
    rw [Function.comp_apply, label_eq "Worker" hlt, List.getElem?_eq_getElem hlt]
    rfl
  have htexts := AnswersIf.mapM fun label (_ : label ∈ idle.map fun w =>
    (matrix.workerIds[w]?).getD .null) => asText_answersIf label
  rw [idleLine, hlabels]
  refine (htexts.map (g := fun texts => "Unmatched workers: " ++ ", ".intercalate texts)).congr ?_
  rw [List.forall_mem_map]
  refine forall₂_congr fun w hw => ?_
  have hlt : w < matrix.workerIds.length := h.workers ▸ hidle w hw
  simp [hlt]

/-! ### Reports -/

/-- The report of an outcome inside a matrix. It needs labels that the lines of jobs can show,
    and after that labels that the last line can show, if there is one. -/
theorem ofMatrix_cases (h : matrix.IsSized) {o : Outcome Float}
    (hin : o.workerOf.Inside matrix.costs.height matrix.costs.width)
    (hidle : ∀ w ∈ o.idle, w < matrix.costs.height) :
    matrix.ShowsLines o.workerOf ∧ matrix.ShowsIdle o.idle ∧
        (∃ text, ofMatrix matrix o = .ok text) ∨
      ¬ matrix.ShowsLines o.workerOf ∧ ofMatrix matrix o = .error (.overlongInteger none) ∨
      matrix.ShowsLines o.workerOf ∧ ¬ matrix.ShowsIdle o.idle ∧
        ofMatrix matrix o = .error .wrongKind := by
  have hrender : ofMatrix matrix o =
      (lines o.summary matrix.costs.tensor (some matrix.workerIds) (some matrix.jobIds) true).map
        fun all => "\n".intercalate all := rfl
  have htotal : totalText o.summary.total = .ok (Decimal.fixed 3 o.total) := rfl
  have hentries : o.summary.entries = .ok (o.workerOf.map fun w => .number (.whole w)) := rfl
  have hitems : o.summary.idleItems =
      .ok (o.idle.map fun (w : Nat) => .number (.whole w)) := rfl
  have htruthy : o.summary.idle.truthy = !o.idle.isEmpty := by
    simp [Outcome.summary, Datum.truthy]
  rw [hrender]
  unfold lines
  rw [htotal, hentries, hitems, htruthy]
  -- The two conditions are settled in the order in which the lines are made.
  rcases jobLines_all_answersIf h hin with ⟨hlines, rows, hrows⟩ | ⟨hlines, hrows⟩
  · rcases idleLine_answersIf h hidle with ⟨hlast, line, hline⟩ | ⟨hlast, hline⟩
    · refine Or.inl ⟨hlines, hlast, ?_⟩
      simp only [bind, Except.bind, hrows, hline]
      split
      · exact ⟨_, rfl⟩
      · exact ⟨_, rfl⟩
    -- The last line can only be at fault if it is made, that is if somebody is left over.
    · have hsome : o.idle.isEmpty = false := by
        by_contra hnone
        rw [Bool.not_eq_false, List.isEmpty_iff] at hnone
        exact hlast fun w hw => absurd hw (hnone ▸ List.not_mem_nil)
      refine Or.inr (Or.inr ⟨hlines, hlast, ?_⟩)
      simp only [bind, Except.bind, hrows, hline, hsome]
      rfl
  · refine Or.inr (Or.inl ⟨hlines, ?_⟩)
    simp only [bind, Except.bind, hrows]
    rfl

/-- There is a report if all labels in it can be shown. -/
theorem ofMatrix_ok_iff (h : matrix.IsSized) {o : Outcome Float}
    (hin : o.workerOf.Inside matrix.costs.height matrix.costs.width)
    (hidle : ∀ w ∈ o.idle, w < matrix.costs.height) :
    (∃ text, ofMatrix matrix o = .ok text) ↔
      matrix.ShowsLines o.workerOf ∧ matrix.ShowsIdle o.idle := by
  rcases ofMatrix_cases h hin hidle with
    ⟨hlines, hlast, htext⟩ | ⟨hlines, hfault⟩ | ⟨_, hlast, hfault⟩
  · exact iff_of_true htext ⟨hlines, hlast⟩
  · rw [hfault]
    exact iff_of_false nofun fun hboth => hlines hboth.1
  · rw [hfault]
    exact iff_of_false nofun fun hboth => hlast hboth.2

/-- A report fails at the lines of the jobs, or else at the last one. -/
theorem ofMatrix_error_iff (h : matrix.IsSized) {o : Outcome Float}
    (hin : o.workerOf.Inside matrix.costs.height matrix.costs.width)
    (hidle : ∀ w ∈ o.idle, w < matrix.costs.height) {fault : Fault} :
    ofMatrix matrix o = .error fault ↔
      ¬ matrix.ShowsLines o.workerOf ∧ fault = .overlongInteger none ∨
      matrix.ShowsLines o.workerOf ∧ ¬ matrix.ShowsIdle o.idle ∧ fault = .wrongKind := by
  rcases ofMatrix_cases h hin hidle with
    ⟨hlines, hlast, text, htext⟩ | ⟨hlines, hfault⟩ | ⟨hlines, hlast, hfault⟩
  · simp [hlines, hlast, htext]
  · simp [hlines, hfault, eq_comm]
  · simp [hlines, hlast, hfault, eq_comm]

/-- A labelled matrix and an outcome inside it have a report. -/
theorem exists_ofMatrix (h : matrix.IsLabelled) {o : Outcome Float}
    (hin : o.workerOf.Inside matrix.costs.height matrix.costs.width)
    (hidle : ∀ w ∈ o.idle, w < matrix.costs.height) :
    ∃ text, ofMatrix matrix o = .ok text :=
  (ofMatrix_ok_iff h.toIsSized hin hidle).mpr
    (CostMatrix.shows_of_isText h.isText o.workerOf o.idle)

end Report

end Roster
