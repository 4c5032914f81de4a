import Roster.Cost.Labelled
import Roster.Proofs.Fallible
import Roster.Proofs.Pairing.Matching
import Roster.Proofs.Search.Insertion
import Roster.Solver.Basic

/-!
# Saturation

Whatever the arithmetic does, a search that ends leaves every row of the padded square in
one column. Only the cells of the rectangle are kept, and these always saturate it: if
there are no more workers than jobs, the worker's row stands in some column and every
column is a job; otherwise every job's column holds some row and every row is a worker.

So no rounding, no value that is no number and no wrong comparison can make an outcome
that matches somebody twice or leaves out more than it must. They can make the outcome
dear, and they can keep the search from ending.

## Theorems

* `mem_pairs_workerOf`: The pairs that a final state holds.
* `Search.Placed.occupied`: With all rows placed, no column is without one.
* `saturates_workerOf`: These pairs saturate the rectangle.
* `solve_of_final`: What a padded search answers when it has come to a final state.
* `exists_state`: There is no other answer.
* `solve_isSaturated`: What every solve that answers says of workers and jobs.
-/

namespace Roster

namespace Search

variable {α : Type} {N : Nat}

/-- The slot of the row or column with a number. -/
def slot (k : Nat) (hk : k < N) : Slot N := Fin.succ ⟨k, hk⟩

theorem slot_ne_zero (k : Nat) (hk : k < N) : slot k hk ≠ 0 := Fin.succ_ne_zero _

/-- A table as a list has the entry of a slot one place behind its number. -/
theorem toList_slot (v : Vector α (N + 1)) {k : Nat} (hk : k < N) :
    v.toList[1 + k]? = some v[slot k hk] := by
  have hlen : 1 + k < v.toList.length := by
    rw [Vector.length_toList]
    omega
  rw [List.getElem?_eq_getElem hlen]
  simp only [Vector.getElem_toList, Nat.add_comm 1 k]
  rfl

theorem exists_slot {r : Slot N} (hr : r ≠ 0) : ∃ k, ∃ hk : k < N, r = slot k hk := by
  rcases Fin.exists_succ_eq.mpr hr with ⟨k, rfl⟩
  exact ⟨k.val, k.isLt, rfl⟩

theorem mem_rows_toFinset {r : Slot N} : r ∈ (rows N).toFinset ↔ r ≠ 0 := by
  rw [List.mem_toFinset, mem_rows]

/-- With all rows placed, no column is without one. -/
theorem Placed.occupied {rowOf : Vector (Slot N) (N + 1)} (h : Placed rowOf 0 (rows N).toFinset)
    {j : Slot N} (hj : j ≠ 0) : rowOf[j] ≠ 0 := by
  have hcard := h.card_eq
  have hrows : (rows N).toFinset = Finset.univ.erase 0 := by
    ext r
    simp only [mem_rows_toFinset, Finset.mem_erase, Finset.mem_univ, and_true]
  rw [hrows] at hcard
  -- The columns that hold a row are as many as the rows, which are as many as the columns.
  have heq := Finset.eq_of_subset_of_card_le
    (s := Finset.univ.filter fun j : Slot N => j ≠ 0 ∧ rowOf[j] ≠ 0) (t := Finset.univ.erase 0)
    (fun k hk => Finset.mem_erase.mpr ⟨(Finset.mem_filter.mp hk).2.1, Finset.mem_univ _⟩)
    (le_of_eq hcard.symm)
  have hmem : j ∈ Finset.univ.erase (0 : Slot N) := Finset.mem_erase.mpr ⟨hj, Finset.mem_univ _⟩
  rw [← heq] at hmem
  exact (Finset.mem_filter.mp hmem).2.2

/-- A run that ends has placed all rows. -/
theorem final_settled {A : Arithmetic α} {cost : Slot N → Slot N → α} {reach : α}
    {s : State α N} (h : final A N cost reach = some s) : Settled s (rows N).toFinset := by
  rw [final_eq] at h
  exact Settled.of_inserted (fresh_rows N) h

end Search

namespace Padded

open Search

variable {α : Type} {N n m : Nat} {s : State α N}

theorem getElem?_workerOf (hm : m ≤ N) (j : Nat) : (workerOf n m s)[j]? =
    if h : j < m then some (worker n s.rowOf[slot j (Nat.lt_of_lt_of_le h hm)]) else none := by
  rw [workerOf, List.getElem?_map, List.getElem?_take]
  by_cases h : j < m
  · rw [if_pos h, dif_pos h, List.getElem?_drop, toList_slot _ (Nat.lt_of_lt_of_le h hm),
      Option.map_some]
  · rw [if_neg h, dif_neg h, Option.map_none]

theorem worker_eq_iff {r : Slot N} {w : Nat} : worker n r = (w : Int) ↔ w < n ∧ r.val = w + 1 := by
  rw [worker]
  split
  · omega
  · omega

/-- The pairs that a final state holds: a worker's row stands in a job's column. -/
theorem mem_pairs_workerOf (hm : m ≤ N) {w j : Nat} : (w, j) ∈ (workerOf n m s).pairs ↔
    w < n ∧ ∃ h : j < m, s.rowOf[slot j (Nat.lt_of_lt_of_le h hm)].val = w + 1 := by
  rw [Matching.mem_pairs, getElem?_workerOf hm]
  by_cases h : j < m
  · rw [dif_pos h, Option.some.injEq, worker_eq_iff]
    exact ⟨fun hw => ⟨hw.1, h, hw.2⟩, fun hw => ⟨hw.1, hw.2.2⟩⟩
  · rw [dif_neg h]
    simp only [reduceCtorEq, false_iff, not_and, not_exists]
    exact fun _ h' => absurd h' h

/-- The same by slots: the pairs are the matched cells of the rectangle. -/
theorem mem_pairs_iff {s : State α (max n m)} {w j : Nat} :
    (w, j) ∈ (workerOf n m s).pairs.toFinset ↔ w < n ∧ j < m ∧
      ∃ (hw : w < max n m) (hj : j < max n m), s.rowOf[slot j hj] = slot w hw := by
  rw [List.mem_toFinset, mem_pairs_workerOf (le_max_right _ _)]
  constructor
  · rintro ⟨hw, hj, hrow⟩
    exact ⟨hw, hj, Nat.lt_of_lt_of_le hw (le_max_left _ _),
      Nat.lt_of_lt_of_le hj (le_max_right _ _), Fin.ext hrow⟩
  · rintro ⟨hw, hj, _, _, hrow⟩
    exact ⟨hw, hj, congrArg Fin.val hrow⟩

theorem saturates_workerOf (hN : N = max n m) (hs : Settled s (rows N).toFinset) :
    (workerOf n m s).Saturates n m := by
  have hm : m ≤ N := hN ▸ le_max_right n m
  have hpair : ∀ x ∈ (workerOf n m s).pairs.toFinset, x.1 < n ∧ ∃ h : x.2 < m,
      s.rowOf[slot x.2 (Nat.lt_of_lt_of_le h hm)].val = x.1 + 1 := fun x hx =>
    (mem_pairs_workerOf hm).mp (List.mem_toFinset.mp hx)
  have hmem : ∀ w j (h : j < m), w < n →
      s.rowOf[slot j (Nat.lt_of_lt_of_le h hm)].val = w + 1 →
      (w, j) ∈ (workerOf n m s).pairs.toFinset := fun w j h hw hrow =>
    List.mem_toFinset.mpr ((mem_pairs_workerOf hm).mpr ⟨hw, h, hrow⟩)
  refine ⟨?_, ?_, Saturating.of_full ?_ ?_ ?_ ?_ ?_⟩
  · simp only [workerOf, List.length_map, List.length_take, List.length_drop, Vector.length_toList]
    omega
  · intro w hw
    rcases List.mem_map.mp hw with ⟨r, _, rfl⟩
    rw [worker]
    split
    · omega
    · exact Or.inl rfl
  · exact fun x hx => ⟨(hpair x hx).1, (hpair x hx).2.1⟩
  · rintro ⟨w, j⟩ hx ⟨w', k⟩ hy (rfl : w = w')
    rcases hpair _ hx with ⟨_, hj, hrow⟩
    rcases hpair _ hy with ⟨_, hk, hrow'⟩
    have heq := hs.placed.once _ _ (slot_ne_zero j (Nat.lt_of_lt_of_le hj hm))
      (slot_ne_zero k (Nat.lt_of_lt_of_le hk hm)) (Fin.ext (hrow.trans hrow'.symm))
      (fun h0 => by rw [h0] at hrow; exact absurd hrow (Nat.succ_ne_zero w).symm)
    have hjk : j = k := Nat.succ.inj (congrArg Fin.val heq)
    rw [hjk]
  · rintro ⟨w, j⟩ hx ⟨w', k⟩ hy (rfl : j = k)
    rcases hpair _ hx with ⟨_, _, hrow⟩
    rcases hpair _ hy with ⟨_, _, hrow'⟩
    have hww : w = w' := Nat.succ.inj (hrow.symm.trans hrow')
    rw [hww]
  · -- Every column is a job, so the column of the worker's row is one.
    intro hnm w hw
    have hwN : w < N := by omega
    rcases (hs.placed.mem_iff (slot w hwN)).mp (mem_rows_toFinset.mpr (slot_ne_zero w hwN))
      with ⟨_, c, hc, hrow⟩
    rcases exists_slot hc with ⟨j, hj, rfl⟩
    have hjm : j < m := by omega
    exact ⟨j, hmem w j hjm hw (congrArg Fin.val hrow)⟩
  · -- Every row is a worker, so the row in the job's column is one.
    intro hmn j hj
    have hjN : j < N := by omega
    rcases exists_slot (hs.placed.occupied (slot_ne_zero j hjN)) with ⟨w, hw, hrow⟩
    exact ⟨w, hmem w j hj (by omega) (congrArg Fin.val hrow)⟩

variable {A : Arithmetic α} {costs : Grid α} {padding reach : α} {o : Outcome α}

theorem solve_eq_endless (hempty : ¬ (n = 0 ∨ m = 0))
    (hfit : exceeds costs n m = false)
    (h : final A (max n m) (cell costs padding) reach = none) :
    solve A costs n m padding reach = .error .endless := by
  rw [solve, if_neg hempty]
  simp only [hfit, Bool.false_eq_true, if_false, h]

/-- A padded search that ends answers with what its final state holds. -/
theorem solve_of_final (hn : costs.height ≠ 0) (hm : costs.width ≠ 0)
    {s : State α (max costs.height costs.width)}
    (hs : final A (max costs.height costs.width) (cell costs padding) reach = some s) :
    solve A costs costs.height costs.width padding reach =
      Outcome.ofMatching A costs (workerOf costs.height costs.width s)
        (s.rowPotential.toList.drop 1) (s.colPotential.toList.drop 1) := by
  simp only [solve, if_neg (not_or.mpr ⟨hn, hm⟩), exceeds_own, Bool.false_eq_true, if_false, hs]

/-- What a padded search answers for a table that is not empty comes from a final state. -/
theorem exists_state (hn : costs.height ≠ 0) (hm : costs.width ≠ 0)
    (h : solve A costs costs.height costs.width padding reach = .ok o) :
    ∃ s, final A (max costs.height costs.width) (cell costs padding) reach = some s ∧
      Outcome.ofMatching A costs (workerOf costs.height costs.width s)
        (s.rowPotential.toList.drop 1) (s.colPotential.toList.drop 1) = .ok o := by
  cases hfinal : final A (max costs.height costs.width) (cell costs padding) reach with
  | none =>
      rw [solve_eq_endless (not_or.mpr ⟨hn, hm⟩) (exceeds_own costs) hfinal] at h
      exact absurd h (by simp only [reduceCtorEq, not_false_eq_true])
  | some s => exact ⟨s, rfl, (solve_of_final hn hm hfinal).symm.trans h⟩

theorem saturated_of_ok (h : solve A costs costs.height costs.width padding reach = .ok o) :
    o.IsSaturated costs.height costs.width := by
  have hofMatching : ∀ {M : Matching} {u v : List α}, M.Saturates costs.height costs.width →
      Outcome.ofMatching A costs M u v = .ok o → o.IsSaturated costs.height costs.width := by
    intro M u v hM ho
    rcases hM.ofMatching A u v with ⟨total, _, htotal⟩
    rw [htotal] at ho
    rcases Except.ok.inj ho with rfl
    exact hM.isSaturated rfl rfl rfl
  by_cases hempty : costs.height = 0 ∨ costs.width = 0
  · rw [solve, if_pos hempty] at h
    exact hofMatching (Matching.saturates_unassigned hempty) h
  · rw [not_or] at hempty
    rcases exists_state hempty.1 hempty.2 h with ⟨s, hs, ho⟩
    exact hofMatching (saturates_workerOf rfl (final_settled hs)) ho

end Padded

/-- Every padded search that answers for a table saturates it, in any arithmetic. So does
    every solve of a prepared table of the declared size, in doubles, whatever the entries
    are and whether or not they were checked. -/
theorem solve_isSaturated :
    (∀ {α : Type} (A : Arithmetic α) (costs : Grid α) (padding reach : α) (o : Outcome α),
      Padded.solve A costs costs.height costs.width padding reach = .ok o →
        o.IsSaturated costs.height costs.width) ∧
    ∀ (n m : Nat) (input : CostInput) (config : Config) (costs : Grid Float) (o : Outcome Float),
      prepare (some (n, m)) input config = .ok costs → costs.height = n → costs.width = m →
        solve n m input config = .ok o → o.IsSaturated n m := by
  refine ⟨fun A costs padding reach o h => Padded.saturated_of_ok h, ?_⟩
  rintro n m input config costs o hprepare rfl rfl h
  rw [solve, hprepare] at h
  simp only [bind, Except.bind, Int.toNat_natCast, searchPrepared, Settings.ofConfig] at h
  by_cases hempty : costs.height = 0 ∨ costs.width = 0
  · rw [if_pos hempty] at h
    exact Padded.saturated_of_ok h
  · rw [if_neg hempty] at h
    simp only [Padded.exceeds_own, Bool.false_eq_true, if_false] at h
    -- A setting that is no double ends the solve, so an answer comes from two that are.
    cases hpad : settingDouble config.paddingSentinel with
    | error fault =>
        rw [hpad] at h
        exact absurd h (by simp only [reduceCtorEq, not_false_eq_true])
    | ok padding =>
        rw [hpad] at h
        cases hreach : settingDouble config.searchInfinity with
        | error fault =>
            rw [hreach] at h
            exact absurd h (by simp only [reduceCtorEq, not_false_eq_true])
        | ok reach =>
            rw [hreach] at h
            exact Padded.saturated_of_ok h

/-- Two workers and three jobs, at costs that are no number, negative, huge and infinite. -/
def wildCosts : Grid Float where
  height := 2
  width := 3
  cells := #v[0.0 / 0.0, -1.0, 3.0, 1.0e300, 2.0, 1.0 / 0.0]

/-- The default configuration, with matrices unchecked. -/
def unchecked : Config := { Config.default with validateInputs := .number (.truth false) }

theorem solve_isSaturated_wildCosts :
    (∃ o, Padded.solve .double wildCosts 2 3 1.0e9 1.0e18 = .ok o ∧ o.IsSaturated 2 3) ∧
      ∃ o, solve 2 3 (CostMatrix.gridInput wildCosts) unchecked = .ok o ∧ o.IsSaturated 2 3 := by
  have hsearch : (Padded.solve .double wildCosts 2 3 1.0e9 1.0e18).isOk = true := by
    decide +kernel
  have hsolve : (solve 2 3 (CostMatrix.gridInput wildCosts) unchecked).isOk = true := by
    decide +kernel
  have hprepare : prepare (some (2, 3)) (CostMatrix.gridInput wildCosts) unchecked
      = .ok wildCosts := rfl
  constructor
  · rcases exists_of_isOk hsearch with ⟨o, ho⟩
    exact ⟨o, ho, solve_isSaturated.1 .double wildCosts 1.0e9 1.0e18 o ho⟩
  · rcases exists_of_isOk hsolve with ⟨o, ho⟩
    exact ⟨o, ho, solve_isSaturated.2 2 3 _ unchecked wildCosts o hprepare rfl rfl ho⟩

end Roster
