import Roster.Proofs.Padded.Certificate
import Roster.Proofs.Search.Equivariance

/-!
# What the Settings Decide

A padded search is set up with two numbers, the cost of a padding cell and the cap on
distances. Neither is about workers or jobs, and neither should be felt in the answer.

The cap is not felt at all: any two caps above all costs give the same outcome, potentials
included. That is more than both outcomes being cheapest, as ties might be broken otherwise,
and it is less than both runs being the same, as the links they leave behind need not be.

The padding is felt in potentials. If there are no more workers than jobs, only whole rows
consist of it; so two paddings make two squares that differ by a constant in each row, and
nothing but the potentials of rows tells one run from the other. If there are more workers
than jobs, whole columns consist of it, and no such thing is claimed.

## Theorems

* `Search.Shifted.rowPotential_eq`, `Search.Shifted.colPotential_eq`: Equal costs have equal
  potentials.
* `Padded.outcome_of_shifted`: Outcomes of states whose rows are shifted.
* `Padded.rowsDiffer_cell`: Two paddings differ by a constant in each row.
* `solve_reach_irrelevant`: The cap is not felt.
* `stages_shift_rows`: Constants in rows and the padding are felt in row potentials only.
-/

namespace Roster

namespace Search

variable {α : Type} {N : Nat} [CommRing α]

-- Tables of slots are the same if their entries are.
theorem vector_ext {β : Type} {v v' : Vector β (N + 1)} (h : ∀ j : Slot N, v'[j] = v[j]) :
    v' = v :=
  Vector.ext fun k hk => h ⟨k, hk⟩

/-- The potentials of the columns in order, without that of the virtual one. -/
theorem Shifted.drop_one_eq {shift : Slot N → α} {R : Finset (Slot N)} {s s' : State α N}
    (h : Shifted shift R s s') :
    s'.colPotential.toList.drop 1 = s.colPotential.toList.drop 1 := by
  rw [Search.drop_one_eq, Search.drop_one_eq]
  refine List.map_congr_left fun k hk => ?_
  rw [List.mem_range] at hk
  rw [potential_slot _ hk, potential_slot _ hk, h.colPotential _ (slot_ne_zero k hk)]

section Equal

variable [LinearOrder α] {cost cost' : Slot N → Slot N → α} {R : Finset (Slot N)} {s s' : State α N}

theorem Shifted.rowPotential_eq (h : Shifted (fun _ => 0) R s s') (b : Balanced cost s R)
    (b' : Balanced cost' s' R) : s'.rowPotential = s.rowPotential := by
  refine vector_ext fun r => ?_
  by_cases hr : r ∈ R
  · rw [h.rowPotential r hr, add_zero]
  · -- A row that was not inserted has no potential yet.
    rw [b.untouched r hr, b'.untouched r hr]

omit [LinearOrder α] in
theorem Shifted.colPotential_eq (h : Shifted (fun _ => 0) R s s') :
    s'.colPotential = s.colPotential := by
  refine vector_ext fun j => ?_
  by_cases hj : j = 0
  · have hvirtual := h.virtual
    rw [Finset.sum_const_zero, add_zero] at hvirtual
    rw [hj]
    exact hvirtual
  · exact h.colPotential j hj

end Equal

end Search

open Search

namespace Padded

variable {α : Type} [CommRing α] {costs : Grid α} {padding padding' : α}

theorem outcome_of_shifted {shift : Slot (max costs.height costs.width) → α}
    {R : Finset (Slot (max costs.height costs.width))}
    {s s' : State α (max costs.height costs.width)} (h : Shifted shift R s s') :
    outcome costs s' = { outcome costs s with
      rowPotentials := s'.rowPotential.toList.drop 1 } := by
  have hworker : workerOf costs.height costs.width s' = workerOf costs.height costs.width s := by
    rw [workerOf, workerOf, h.rowOf]
  rw [outcome, outcome, hworker, h.drop_one_eq]

/-- If there are no more workers than jobs, two paddings differ by a constant in each row that
    is no worker's, and not at all in the others. -/
theorem rowsDiffer_cell (hnm : costs.height ≤ costs.width) :
    RowsDiffer (fun r : Slot (max costs.height costs.width) =>
      if r.val ≤ costs.height then 0 else padding' - padding)
      (cell costs padding) (cell costs padding') := by
  constructor
  intro r c hr hc
  rcases exists_slot hr with ⟨w, hw, rfl⟩
  rcases exists_slot hc with ⟨j, hj, rfl⟩
  rw [cell_slot, cell_slot]
  -- Every column is a job, so a cell is padding if and only if its row is.
  have hjob : j < costs.width := by omega
  change _ = _ + if w + 1 ≤ costs.height then 0 else padding' - padding
  by_cases hworker : w < costs.height
  · rw [if_pos ⟨hworker, hjob⟩, if_pos ⟨hworker, hjob⟩, if_pos (by omega), add_zero]
  · rw [if_neg fun h => hworker h.1, if_neg fun h => hworker h.1, if_neg (by omega),
      add_sub_cancel]

-- If there is nothing to match, no setting is looked at.
theorem exists_outcome_of_empty [LinearOrder α] (hempty : costs.height = 0 ∨ costs.width = 0) :
    ∃ o : Outcome α, ∀ padding reach : α,
      solve .ofOrder costs costs.height costs.width padding reach = .ok o :=
  ⟨_, fun _ _ => (if_pos hempty).trans ((Matching.saturates_unassigned hempty).outcome_eq [] [])⟩

end Padded

/-! ### Rational costs -/

/-- Two caps above all costs and the padding are not told apart: the outcome is the same, and
    so are all potentials and all matched rows after each inserted row. -/
theorem solve_reach_irrelevant (costs : Grid ℚ) (padding reach reach' : ℚ) (hpad : padding < reach)
    (hpad' : padding < reach') (hcost : ∀ i j, costs.get i j < reach)
    (hcost' : ∀ i j, costs.get i j < reach') :
    (∃ o, Padded.solve .ofOrder costs costs.height costs.width padding reach = .ok o ∧
      Padded.solve .ofOrder costs costs.height costs.width padding reach' = .ok o) ∧
    ∀ k, k < max costs.height costs.width → ∃ stage stage' s s',
      (stages .ofOrder (max costs.height costs.width) (Padded.cell costs padding) reach)[k]? =
          some stage ∧
        (stages .ofOrder (max costs.height costs.width) (Padded.cell costs padding) reach')[k]? =
          some stage' ∧
        stage.row.val = k + 1 ∧ stage'.row.val = k + 1 ∧
        stage.state = some s ∧ stage'.state = some s' ∧
        s'.rowPotential = s.rowPotential ∧ s'.colPotential = s.colPotential ∧
        s'.rowOf = s.rowOf := by
  have hcell := Padded.cell_lt (fun w j hw hj => costs.costAt_of_lt hw hj ▸ hcost ⟨w, hw⟩ ⟨j, hj⟩)
    hpad
  have hcell' := Padded.cell_lt (fun w j hw hj => costs.costAt_of_lt hw hj ▸ hcost' ⟨w, hw⟩ ⟨j, hj⟩)
    hpad'
  have hsame : RowsDiffer (fun _ => 0) (Padded.cell costs padding) (Padded.cell costs padding) :=
    ⟨fun (r j : Slot (max costs.height costs.width)) _ _ => (add_zero _).symm⟩
  -- Two caps are two runs on the same square, which differs from itself by no constants.
  constructor
  · by_cases hempty : costs.height = 0 ∨ costs.width = 0
    · rcases Padded.exists_outcome_of_empty hempty with ⟨o, ho⟩
      exact ⟨o, ho padding reach, ho padding reach'⟩
    · rw [not_or] at hempty
      rcases exists_both_final hsame hcell hcell' with ⟨s, s', hs, hs', b, b', h⟩
      refine ⟨_, Padded.solve_eq_outcome hempty.1 hempty.2 hs, ?_⟩
      rw [Padded.solve_eq_outcome hempty.1 hempty.2 hs', Padded.outcome_of_shifted h,
        h.rowPotential_eq b b']
      rfl
  · intro k hk
    rcases exists_both_stages hsame hcell hcell' hk with
      ⟨stage, stage', s, s', hget, hget', hrow, hrow', hs, hs', _, b, b', h⟩
    exact ⟨stage, stage', s, s', hget, hget', hrow, hrow', hs, hs', h.rowPotential_eq b b',
      h.colPotential_eq, h.rowOf⟩

/-- Costs at which runs with the caps `10` and `100` leave other links behind. -/
def farCosts : Grid ℚ where
  height := 4
  width := 4
  cells := #v[9, 6, 8, 2, 8, 6, 8, 1, 7, 0, 6, 3, 0, 4, 9, 6]

theorem solve_reach_irrelevant_farCosts : (9 : ℚ) < 10 ∧ (9 : ℚ) < 100 ∧
    (∀ i j, farCosts.get i j < 10) ∧ (∀ i j, farCosts.get i j < 100) ∧
    (∃ o, Padded.solve .ofOrder farCosts 4 4 9 10 = .ok o ∧
      Padded.solve .ofOrder farCosts 4 4 9 100 = .ok o) ∧
    ∀ k, k < 4 → ∃ stage stage' s s',
      (stages .ofOrder 4 (Padded.cell farCosts 9) 10)[k]? = some stage ∧
        (stages .ofOrder 4 (Padded.cell farCosts 9) 100)[k]? = some stage' ∧
        stage.row.val = k + 1 ∧ stage'.row.val = k + 1 ∧
        stage.state = some s ∧ stage'.state = some s' ∧
        s'.rowPotential = s.rowPotential ∧ s'.colPotential = s.colPotential ∧
        s'.rowOf = s.rowOf := by
  have hpad : (9 : ℚ) < 10 := by decide +kernel
  have hpad' : (9 : ℚ) < 100 := by decide +kernel
  have hcost : ∀ i j, farCosts.get i j < 10 := by decide +kernel
  have hcost' : ∀ i j, farCosts.get i j < 100 := by decide +kernel
  exact ⟨hpad, hpad', hcost, hcost',
    solve_reach_irrelevant farCosts 9 10 100 hpad hpad' hcost hcost'⟩

/-- Constants added to the costs of rows go into the potentials of these rows and are felt in
    nothing else, as long as all costs stay below the cap. So is the padding if there are no
    more workers than jobs. -/
theorem stages_shift_rows :
    (∀ {N : Nat} (cost cost' : Slot N → Slot N → ℚ) (shift : Slot N → ℚ) (reach : ℚ),
      (∀ r j, r ≠ 0 → j ≠ 0 → cost' r j = cost r j + shift r) →
      (∀ r j, r ≠ 0 → j ≠ 0 → cost r j < reach) → (∀ r j, r ≠ 0 → j ≠ 0 → cost' r j < reach) →
      ∀ k, k < N → ∃ stage stage' s s', (stages .ofOrder N cost reach)[k]? = some stage ∧
        (stages .ofOrder N cost' reach)[k]? = some stage' ∧
        stage.row.val = k + 1 ∧ stage'.row.val = k + 1 ∧
        stage.state = some s ∧ stage'.state = some s' ∧
        stage'.probe.column = stage.probe.column ∧ s'.rowOf = s.rowOf ∧
        (∀ j : Slot N, j ≠ 0 → s'.colPotential[j] = s.colPotential[j]) ∧
        ∀ r : Slot N, r ≠ 0 → r.val ≤ k + 1 →
          s'.rowPotential[r] = s.rowPotential[r] + shift r) ∧
    ∀ (costs : Grid ℚ) (padding padding' reach : ℚ), costs.height ≤ costs.width →
      padding < reach → padding' < reach → (∀ i j, costs.get i j < reach) →
      ∃ o o', Padded.solve .ofOrder costs costs.height costs.width padding reach = .ok o ∧
        Padded.solve .ofOrder costs costs.height costs.width padding' reach = .ok o' ∧
        o'.workerOf = o.workerOf ∧ o'.total = o.total ∧ o'.colPotentials = o.colPotentials := by
  constructor
  · intro N cost cost' shift reach hshift hcost hcost' k hk
    rcases exists_both_stages ⟨hshift⟩ hcost hcost' hk with
      ⟨stage, stage', s, s', hget, hget', hrow, hrow', hs, hs', hcolumn, _, _, h⟩
    exact ⟨stage, stage', s, s', hget, hget', hrow, hrow', hs, hs', hcolumn, h.rowOf,
      h.colPotential, fun r hr hle => h.rowPotential r (mem_take_rows.mpr ⟨hr, hle⟩)⟩
  · intro costs padding padding' reach hnm hpad hpad' hcost
    have hbelow : ∀ w j, w < costs.height → j < costs.width → costs.costAt w j < reach :=
      fun w j hw hj => costs.costAt_of_lt hw hj ▸ hcost ⟨w, hw⟩ ⟨j, hj⟩
    by_cases hempty : costs.height = 0 ∨ costs.width = 0
    · rcases Padded.exists_outcome_of_empty hempty with ⟨o, ho⟩
      exact ⟨o, o, ho padding reach, ho padding' reach, rfl, rfl, rfl⟩
    · rw [not_or] at hempty
      -- The rows that are padding get other potentials, and the outcome shows nothing else of them.
      rcases exists_both_final (Padded.rowsDiffer_cell hnm) (Padded.cell_lt hbelow hpad)
        (Padded.cell_lt hbelow hpad') with ⟨s, s', hs, hs', _, _, h⟩
      refine ⟨_, _, Padded.solve_eq_outcome hempty.1 hempty.2 hs,
        Padded.solve_eq_outcome hempty.1 hempty.2 hs', ?_⟩
      rw [Padded.outcome_of_shifted h]
      exact ⟨rfl, rfl, rfl⟩

/-- Constants for the rows of a square of three. -/
def rowTolls (r : Slot 3) : ℚ := if r.val = 1 then 5 else -1 / 2

theorem stages_shift_rows_tiedCosts :
    (∀ r j : Slot 3, r ≠ 0 → j ≠ 0 → Padded.cell tiedCosts (2 : ℚ) r j < 8) ∧
    (∀ r j : Slot 3, r ≠ 0 → j ≠ 0 → Padded.cell tiedCosts (2 : ℚ) r j + rowTolls r < 8) ∧
    (∀ k, k < 3 → ∃ stage stage' s s',
      (stages .ofOrder 3 (Padded.cell tiedCosts (2 : ℚ)) 8)[k]? = some stage ∧
        (stages .ofOrder 3 (fun r j => Padded.cell tiedCosts (2 : ℚ) r j + rowTolls r) 8)[k]? =
          some stage' ∧
        stage.row.val = k + 1 ∧ stage'.row.val = k + 1 ∧
        stage.state = some s ∧ stage'.state = some s' ∧
        stage'.probe.column = stage.probe.column ∧ s'.rowOf = s.rowOf ∧
        (∀ j : Slot 3, j ≠ 0 → s'.colPotential[j] = s.colPotential[j]) ∧
        ∀ r : Slot 3, r ≠ 0 → r.val ≤ k + 1 →
          s'.rowPotential[r] = s.rowPotential[r] + rowTolls r) ∧
    (1 : ℚ) < 8 ∧ (-4 : ℚ) < 8 ∧ (∀ i j, mixedCosts.get i j < 8) ∧
    ∃ o o', Padded.solve .ofOrder mixedCosts 2 3 1 8 = .ok o ∧
      Padded.solve .ofOrder mixedCosts 2 3 (-4) 8 = .ok o' ∧
      o'.workerOf = o.workerOf ∧ o'.total = o.total ∧ o'.colPotentials = o.colPotentials := by
  have hcost : ∀ r j : Slot 3, r ≠ 0 → j ≠ 0 → Padded.cell tiedCosts (2 : ℚ) r j < 8 := by
    decide +kernel
  have hcost' : ∀ r j : Slot 3, r ≠ 0 → j ≠ 0 →
      Padded.cell tiedCosts (2 : ℚ) r j + rowTolls r < 8 := by
    decide +kernel
  have hpad : (1 : ℚ) < 8 := by decide +kernel
  have hpad' : (-4 : ℚ) < 8 := by decide +kernel
  have hmixed : ∀ i j, mixedCosts.get i j < 8 := by decide +kernel
  exact ⟨hcost, hcost',
    stages_shift_rows.1 _ _ rowTolls 8 (fun _ _ _ _ => rfl) hcost hcost', hpad, hpad', hmixed,
    stages_shift_rows.2 mixedCosts 1 (-4) 8 (by decide) hpad hpad' hmixed⟩

end Roster
