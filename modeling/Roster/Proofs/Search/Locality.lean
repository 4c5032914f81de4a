import Roster.Proofs.Search.Lockstep

/-!
# The Cells That a Search Reads

Which cells of the table an insertion looks at, whatever its arithmetic does. A step reads the
row that stands in the column just reached, and every column of the tree holds one of the
matched rows or the new one. So nothing of a row is felt before the row comes in, and nothing
of the virtual row and the virtual column is felt at all.

That the rows of the tree are such rows is not for the costs to decide. A column that holds no
row is never in the tree, and the rows that stand anywhere are the inserted ones, however the
numbers compare. So the two runs here may meet infinite costs, values that are no number, and
links that an earlier row left behind: they go the same way all the same, also where the way
back never ends.

## Main definitions

* `AgreeOn`: Tables with the same cells in some rows.

## Theorems

* `Probe.step_congr`: A step reads one row, and not its virtual cell.
* `insertRow_congr`: An insertion reads the matched rows and the new one.
* `insertRows_congr`: Insertions in turn read no row that is not among them.
* `insertRows_take`: The first stages are the insertions of the first rows.
* `stages_causal`: Later rows, the virtual row and the virtual column are not felt.
-/

namespace Roster

namespace Search

variable {α : Type} {N : Nat} {A : Arithmetic α} {cost cost' : Slot N → Slot N → α} {reach : α}

/-- Two tables with the same cells in the rows of `R`, but for the virtual column. -/
structure AgreeOn (R : Finset (Slot N)) (cost cost' : Slot N → Slot N → α) : Prop where
  cell : ∀ r ∈ R, ∀ j, j ≠ 0 → cost' r j = cost r j

namespace Probe

theorem improves_congr {p : Probe α N}
    (h : ∀ j, j ≠ 0 → cost' p.rowOf[p.column] j = cost p.rowOf[p.column] j) (j : Slot N) :
    p.improves A cost' j = p.improves A cost j := by
  by_cases hj : j = 0
  · simp [improves, hj]
  · simp only [improves, reduced, h j hj]

/-- Looking at the columns outside the tree reads the row of the reached column. The virtual
    column is in the tree by then, so its cell is not read. -/
theorem scan_congr {p : Probe α N}
    (h : ∀ j, j ≠ 0 → cost' p.rowOf[p.column] j = cost p.rowOf[p.column] j) :
    p.scan A cost' = p.scan A cost := by
  have himp := improves_congr (A := A) h
  have hslack : ∀ j : Slot N,
      (if p.improves A cost j then reduced A cost' p.toState p.rowOf[p.column] j
        else p.slack[j]) =
      (if p.improves A cost j then reduced A cost p.toState p.rowOf[p.column] j
        else p.slack[j]) := by
    intro j
    by_cases hj : j = 0
    · -- The virtual column is never improved, so both sides are its old slack.
      simp [improves, hj]
    · simp only [reduced, h j hj]
  simp only [scan, himp, hslack]

theorem step_congr {p : Probe α N}
    (h : ∀ j, j ≠ 0 → cost' p.rowOf[p.column] j = cost p.rowOf[p.column] j) :
    p.step A cost' = p.step A cost := by
  have hscan : p.enter.scan A cost' = p.enter.scan A cost := scan_congr (p := p.enter) h
  simp only [step, hscan]

end Probe

section Row

variable {s : State α N} {R : Finset (Slot N)} {i : Slot N}

/-- A search for a row reads the rows that were matched before and the new one. -/
theorem run_congr (hs : Settled s R) (hi : i ∉ R) (hi0 : i ≠ 0)
    (h : AgreeOn (insert i R) cost cost') :
    (Probe.start s i reach).run A cost' (N + 1) = (Probe.start s i reach).run A cost (N + 1) := by
  rcases hs.placed.exists_vacant hi hi0 with ⟨y, hy, hvacant⟩
  -- The tree says which rows its columns hold, so it is carried along with the equality.
  have hstep : ∀ p p' : Probe α N, Tree s i p ∧ p' = p → p.done = false →
      Tree s i (p.step A cost) ∧ p'.step A cost' = p.step A cost := by
    rintro p p' ⟨htree, heq⟩ hdone
    have hocc : p.rowOf[p.column] ≠ 0 := fun h0 => by
      rw [Probe.done_iff.mpr h0] at hdone
      exact absurd hdone Bool.noConfusion
    have hrow : p.rowOf[p.column] ∈ insert i R := by
      rcases htree.row_mem hs.placed hocc with hmem | hnew
      · exact Finset.mem_insert_of_mem hmem
      · exact hnew ▸ Finset.mem_insert_self _ _
    rw [heq]
    exact ⟨htree.of_reaches hdone (htree.reaches hdone hy hvacant),
      Probe.step_congr fun j hj => h.cell _ hrow j hj⟩
  exact (Probe.run_keeps_both (P := fun p p' => Tree s i p ∧ p' = p)
    (fun p p' hp => congrArg Probe.done hp.2) hstep (N + 1) _ _
    ⟨Tree.start hi0 hs.linked, rfl⟩ (Probe.start_not_done hi0)).2

theorem insertRow_congr (hs : Settled s R) (hi : i ∉ R) (hi0 : i ≠ 0)
    (h : AgreeOn (insert i R) cost cost') :
    insertRow A cost' reach s i = insertRow A cost reach s i := by
  simp only [insertRow, run_congr hs hi hi0 h]

end Row

/-! ### All rows in turn -/

/-- Insertions in turn read the rows that were matched before and their own. -/
theorem insertRows_congr (rows : List (Slot N)) {s : State α N} {R : Finset (Slot N)}
    (hs : Settled s R) (hfresh : Fresh rows R) (h : AgreeOn (R ∪ rows.toFinset) cost cost') :
    insertRows A cost' reach s rows = insertRows A cost reach s rows := by
  induction rows generalizing s R with
  | nil => rfl
  | cons i rest ih =>
      have hi := hfresh.not_mem i List.mem_cons_self
      have hi0 := hfresh.ne_zero i List.mem_cons_self
      have hunion : R ∪ (i :: rest).toFinset = insert i R ∪ rest.toFinset := by
        rw [List.toFinset_cons, Finset.union_insert, Finset.insert_union]
      rw [hunion] at h
      have hrow : insertRow A cost' reach s i = insertRow A cost reach s i :=
        insertRow_congr hs hi hi0 ⟨fun r hr => h.cell r (Finset.mem_union_left _ hr)⟩
      rw [insertRows, insertRows, hrow]
      -- The rows that follow are inserted into the same state, if there is one.
      cases hnext : (insertRow A cost reach s i).state with
      | none => rfl
      | some next =>
          exact congrArg (_ :: ·) (ih (hs.insertRow hi hi0 hnext) hfresh.tail h)

theorem insertRows_take (A : Arithmetic α) (cost : Slot N → Slot N → α) (reach : α)
    (rows : List (Slot N)) (s : State α N) (k : Nat) :
    (insertRows A cost reach s rows).take k = insertRows A cost reach s (rows.take k) := by
  induction rows generalizing s k with
  | nil => simp only [insertRows, List.take_nil]
  | cons i rest ih =>
      cases k with
      | zero => simp only [insertRows, List.take_zero]
      | succ k =>
          rw [insertRows, List.take_succ_cons, List.take_succ_cons, insertRows]
          cases (insertRow A cost reach s i).state with
          | none => exact congrArg (_ :: ·) List.take_nil
          | some next => exact congrArg (_ :: ·) (ih next k)

/-- The first `k` stages of a run, with all that their searches and the states behind them hold,
    are those of any other table that agrees with this one on the first `k` rows; and two tables
    that differ in virtual cells only have the same run. The costs may be any values under any
    arithmetic. -/
theorem stages_causal (A : Arithmetic α) (cost cost' : Slot N → Slot N → α) (reach : α) :
    (∀ k, (∀ r j : Slot N, r ≠ 0 → r.val ≤ k → j ≠ 0 → cost' r j = cost r j) →
      (stages A N cost' reach).take k = (stages A N cost reach).take k) ∧
    ((∀ r j : Slot N, r ≠ 0 → j ≠ 0 → cost' r j = cost r j) →
      stages A N cost' reach = stages A N cost reach ∧
        final A N cost' reach = final A N cost reach) := by
  constructor
  · intro k h
    rw [stages, stages, insertRows_take, insertRows_take]
    refine insertRows_congr _ (Settled.start A) (fresh_take N k) ⟨fun r hr j hj => ?_⟩
    rw [Finset.empty_union, mem_take_rows] at hr
    exact h r j hr.1 hr.2 hj
  · intro h
    have hstages : stages A N cost' reach = stages A N cost reach :=
      insertRows_congr _ (Settled.start A) (fresh_rows N) ⟨fun r hr j hj => by
        rw [Finset.empty_union, List.mem_toFinset, mem_rows] at hr
        exact h r j hr hj⟩
    exact ⟨hstages, by rw [final, final, hstages]⟩

/-- Costs that are no number or infinite in the first two rows, with one value in all of the
    last row and one in all virtual cells. -/
def brokenCosts (last virtual : Float) (r j : Slot 3) : Float :=
  if r.val = 0 ∨ j.val = 0 then virtual
  else if r.val = 3 then last
  else if r.val = j.val then 0.0 / 0.0
  else if j.val = 3 then 1.0 / 0.0
  else -1.5

theorem stages_causal_brokenCosts :
    (∀ r j : Slot 3, r ≠ 0 → r.val ≤ 2 → j ≠ 0 →
      brokenCosts 7.0 8.0 r j = brokenCosts 0.25 2.0 r j) ∧
    (stages .double 3 (brokenCosts 7.0 8.0) 1.0e18).take 2 =
      (stages .double 3 (brokenCosts 0.25 2.0) 1.0e18).take 2 ∧
    (∀ r j : Slot 3, r ≠ 0 → j ≠ 0 → brokenCosts 7.0 8.0 r j = brokenCosts 7.0 2.0 r j) ∧
    stages .double 3 (brokenCosts 7.0 8.0) 1.0e18 =
      stages .double 3 (brokenCosts 7.0 2.0) 1.0e18 ∧
    final .double 3 (brokenCosts 7.0 8.0) 1.0e18 =
      final .double 3 (brokenCosts 7.0 2.0) 1.0e18 := by
  have hfirst : ∀ r j : Slot 3, r ≠ 0 → r.val ≤ 2 → j ≠ 0 →
      brokenCosts 7.0 8.0 r j = brokenCosts 0.25 2.0 r j := by decide +kernel
  have hreal : ∀ r j : Slot 3, r ≠ 0 → j ≠ 0 →
      brokenCosts 7.0 8.0 r j = brokenCosts 7.0 2.0 r j := by decide +kernel
  exact ⟨hfirst, (stages_causal .double _ _ 1.0e18).1 2 hfirst, hreal,
    (stages_causal .double _ _ 1.0e18).2 hreal⟩

end Search

end Roster
