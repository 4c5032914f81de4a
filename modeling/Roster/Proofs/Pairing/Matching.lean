import Mathlib.Algebra.Ring.Defs
import Mathlib.Data.Finset.Basic
import Mathlib.Data.List.Nodup
import Roster.Outcome
import Roster.Proofs.Pairing.Saturating

/-!
# Matchings as Pairings

A matching is a list that names a worker for each job. Its pairs are listed in job order,
so none comes twice, and the matching can be read back from the set of its pairs.

An outcome is built from a matching in one way, and nothing of it depends on numbers but
the total. So for a matching that saturates a table, all that an outcome promises about
workers and jobs holds in any arithmetic.

## Main definitions

* `Matching.Saturates`: A matching whose pairs saturate a rectangle.
* `Outcome.IsSaturated`: All that an outcome says of who is matched and who is not.

## Theorems

* `Matching.filter_nonneg`: The workers of a matching are those of its pairs.
* `Matching.ext_pairs`: A matching is known by the set of its pairs.
* `Matching.saturates_unassigned`: Nothing saturates an empty rectangle.
* `Outcome.exists_addCosts`, `Outcome.addCosts_ofOrder`: Adding costs of pairs.
* `Matching.Saturates.length_idle`: How many workers are left over.
* `Matching.Saturates.ofMatching`: The outcome of a saturating matching exists.
* `Matching.Saturates.isSaturated`: What it says of workers and jobs.
* `Matching.Saturates.outcome_eq`: The outcome in exact arithmetic.
-/

namespace Roster

variable {α : Type}

namespace Matching

theorem pairsFrom_pairwise (job : Nat) (matching : Matching) :
    (pairsFrom job matching).Pairwise fun x y => x.2 < y.2 := by
  induction matching generalizing job with
  | nil => exact List.Pairwise.nil
  | cons w rest ih =>
      rw [pairsFrom]
      by_cases hw : 0 ≤ w
      · rw [if_pos hw, List.pairwise_cons]
        refine ⟨fun x hx => ?_, ih (job + 1)⟩
        rcases mem_pairsFrom.mp hx with ⟨k, _, hk⟩
        simp only [hk]
        omega
      · rw [if_neg hw]
        exact ih (job + 1)

theorem nodup_pairs (matching : Matching) : matching.pairs.Nodup :=
  (pairsFrom_pairwise 0 matching).imp fun hlt heq => absurd (heq ▸ hlt) (Nat.lt_irrefl _)

/-- The workers of a matching, in job order, are those of its pairs. -/
theorem filter_nonneg (matching : Matching) :
    matching.filter (fun w => decide (0 ≤ w)) = matching.pairs.map fun x => (x.1 : Int) := by
  have hfrom : ∀ (matching : Matching) (job : Nat), matching.filter (fun w => decide (0 ≤ w))
      = (pairsFrom job matching).map fun x => (x.1 : Int) := by
    intro matching
    induction matching with
    | nil => intro job; rfl
    | cons w rest ih =>
        intro job
        rw [pairsFrom, List.filter_cons]
        by_cases hw : 0 ≤ w
        · rw [if_pos hw, if_pos (decide_eq_true hw), List.map_cons, ← ih (job + 1)]
          exact congrArg (· :: _) (Int.toNat_of_nonneg hw).symm
        · rw [if_neg hw, if_neg (by simpa only [decide_eq_true_eq] using hw)]
          exact ih (job + 1)
  exact hfrom matching 0

/-- A matching is known by its length and the set of its pairs. -/
theorem ext_pairs {M M' : Matching} (hlen : M.length = M'.length)
    (hM : ∀ w ∈ M, w = -1 ∨ 0 ≤ w) (hM' : ∀ w ∈ M', w = -1 ∨ 0 ≤ w)
    (hpairs : M.pairs.toFinset = M'.pairs.toFinset) : M = M' := by
  have hmem : ∀ w j : Nat, M[j]? = some (w : Int) ↔ M'[j]? = some (w : Int) := by
    intro w j
    rw [← mem_pairs, ← mem_pairs, ← List.mem_toFinset, hpairs, List.mem_toFinset]
  refine List.ext_getElem hlen fun j hj hj' => ?_
  have hnat : ∀ v : Int, 0 ≤ v → ∃ w : Nat, v = (w : Int) := fun v hv =>
    ⟨v.toNat, (Int.toNat_of_nonneg hv).symm⟩
  -- A job that is open in the one matching has no pair, so it is open in the other.
  rcases hM _ (List.getElem_mem hj) with h | h
  · rcases hM' _ (List.getElem_mem hj') with h' | h'
    · rw [h, h']
    · rcases hnat _ h' with ⟨w, hw⟩
      have := (hmem w j).mpr (by rw [List.getElem?_eq_getElem hj', hw])
      rw [List.getElem?_eq_getElem hj, h, Option.some.injEq] at this
      omega
  · rcases hnat _ h with ⟨w, hw⟩
    have := (hmem w j).mp (by rw [List.getElem?_eq_getElem hj, hw])
    rw [List.getElem?_eq_getElem hj', Option.some.injEq] at this
    rw [hw, this]

/-- A matching of `m` jobs whose pairs saturate `n` workers and `m` jobs, and in which every
    other job stays open. -/
structure Saturates (n m : Nat) (M : Matching) : Prop where
  length : M.length = m
  entry : ∀ w ∈ M, w = -1 ∨ 0 ≤ w
  pairs : Saturating n m M.pairs.toFinset

theorem pairs_unassigned (m : Nat) : (unassigned m).pairs = [] := by
  refine List.eq_nil_iff_forall_not_mem.mpr fun ⟨w, j⟩ hx => ?_
  have hw := List.mem_of_getElem? (mem_pairs.mp hx)
  have := List.eq_of_mem_replicate hw
  omega

/-- Nothing saturates an empty rectangle. -/
theorem saturates_unassigned {n m : Nat} (hempty : n = 0 ∨ m = 0) :
    (unassigned m).Saturates n m := by
  refine ⟨List.length_replicate, fun w hw => Or.inl (List.eq_of_mem_replicate hw), ?_⟩
  rw [pairs_unassigned, List.toFinset_nil]
  exact Saturating.of_full (fun x hx => absurd hx (Finset.notMem_empty x))
    (fun x hx => absurd hx (Finset.notMem_empty x))
    (fun x hx => absurd hx (Finset.notMem_empty x))
    (fun hnm w hw => by omega) (fun hmn j hj => by omega)

/-- If there is nothing to match, the open matching is a cheapest one. -/
theorem isCheapest_unassigned [AddCommMonoid α] [Preorder α] {g : Grid α}
    (hempty : g.height = 0 ∨ g.width = 0) : IsCheapest g (unassigned g.width).pairs.toFinset := by
  have hnone : (unassigned g.width).pairs.toFinset = ∅ :=
    Finset.card_eq_zero.mp (by rw [(saturates_unassigned hempty).pairs.card]; omega)
  rw [hnone]
  exact isCheapest_empty hempty

end Matching

/-! ### Outcomes -/

namespace Status

variable {n m : Nat}

theorem ofSize_eq_vacant_iff : ofSize n m = .vacant ↔ n * m = 0 := by
  rw [Nat.mul_eq_zero, ofSize]
  by_cases hempty : n = 0 ∨ m = 0
  · rw [if_pos hempty]
    exact iff_of_true rfl hempty
  · rw [if_neg hempty]
    refine iff_of_false ?_ hempty
    split
    · exact fun h => Status.noConfusion h
    · exact fun h => Status.noConfusion h

theorem ofSize_eq_balanced_iff : ofSize n m = .balanced ↔ n = m ∧ 0 < m := by
  rw [ofSize]
  split
  · simp only [reduceCtorEq, false_iff]
    omega
  · split
    · simp only [true_iff]
      omega
    · simp only [reduceCtorEq, false_iff]
      omega

theorem ofSize_eq_surplus_iff : ofSize n m = .surplus ↔ n ≠ m ∧ n * m ≠ 0 := by
  rw [Ne, Ne, Nat.mul_eq_zero, ofSize]
  split
  · simp only [reduceCtorEq, false_iff]
    omega
  · split
    · simp only [reduceCtorEq, false_iff]
      omega
    · simp only [true_iff]
      omega

end Status

namespace Outcome

/-- Costs of pairs inside a table can be added, in any arithmetic. -/
theorem exists_addCosts (A : Arithmetic α) (costs : Grid α) (xs : List (Nat × Nat)) (sum : α)
    (hin : ∀ x ∈ xs, x.1 < costs.height ∧ x.2 < costs.width) :
    ∃ total, addCosts A costs xs sum = .ok total := by
  induction xs generalizing sum with
  | nil => exact ⟨sum, rfl⟩
  | cons x rest ih =>
      have hx := hin x List.mem_cons_self
      rcases ih (A.add sum (costs.get ⟨x.1, hx.1⟩ ⟨x.2, hx.2⟩))
        (fun y hy => hin y (List.mem_cons_of_mem _ hy)) with ⟨total, htotal⟩
      refine ⟨total, ?_⟩
      rw [addCosts, Grid.get?, dif_pos hx]
      exact htotal

/-- In exact arithmetic they are added to what their cells cost together. -/
theorem addCosts_ofOrder [CommRing α] [LinearOrder α] (costs : Grid α) (xs : List (Nat × Nat))
    (sum : α) (hin : ∀ x ∈ xs, x.1 < costs.height ∧ x.2 < costs.width) :
    addCosts .ofOrder costs xs sum = .ok (sum + (xs.map fun x => costs.costAt x.1 x.2).sum) := by
  induction xs generalizing sum with
  | nil =>
      rw [List.map_nil, List.sum_nil, add_zero]
      rfl
  | cons x rest ih =>
      have hx := hin x List.mem_cons_self
      have hcell : costs.get? x.1 x.2 = some (costs.costAt x.1 x.2) := by
        rw [Grid.costAt, Grid.get?, dif_pos hx]
        rfl
      rw [addCosts, hcell, List.map_cons, List.sum_cons, ← add_assoc]
      exact ih _ fun y hy => hin y (List.mem_cons_of_mem _ hy)

end Outcome

/-- All that an outcome for `n` workers and `m` jobs says of who is matched and who is not. -/
structure Outcome.IsSaturated (n m : Nat) (o : Outcome α) : Prop where
  length_workerOf : o.workerOf.length = m
  entry : ∀ w ∈ o.workerOf, w = -1 ∨ 0 ≤ w ∧ w < n
  once : (o.workerOf.filter fun w => decide (0 ≤ w)).Nodup
  matched : (o.workerOf.filter fun w => decide (0 ≤ w)).length = min n m
  unmatched : o.workerOf.count (-1) = m - n
  idle_pairwise : o.idle.Pairwise (· < ·)
  mem_idle : ∀ w, w ∈ o.idle ↔ w < n ∧ (w : Int) ∉ o.workerOf
  length_idle : o.idle.length = n - m
  length_pairs : o.workerOf.pairs.length + o.idle.length = n
  vacant : o.status = .vacant ↔ n * m = 0
  balanced : o.status = .balanced ↔ n = m ∧ 0 < m
  surplus : o.status = .surplus ↔ n ≠ m ∧ n * m ≠ 0
  perm : n = m → o.workerOf.Perm ((List.range n).map fun w : Nat => (w : Int))

namespace Matching.Saturates

variable {n m : Nat} {M : Matching}

theorem length_pairs (h : M.Saturates n m) : M.pairs.length = min n m := by
  rw [← h.pairs.card, List.toFinset_card_of_nodup M.nodup_pairs]

theorem inside (h : M.Saturates n m) : ∀ x ∈ M.pairs, x.1 < n ∧ x.2 < m :=
  fun x hx => h.pairs.inside x (List.mem_toFinset.mpr hx)

theorem matched (h : M.Saturates n m) :
    (M.filter fun w => decide (0 ≤ w)).length = min n m := by
  rw [filter_nonneg, List.length_map, h.length_pairs]

theorem lt_of_mem (h : M.Saturates n m) {w : Int} (hw : w ∈ M) (hpos : 0 ≤ w) : w < n := by
  rcases List.getElem?_of_mem hw with ⟨j, hj⟩
  have hmem : (w.toNat, j) ∈ M.pairs := by
    rw [mem_pairs, hj, Int.toNat_of_nonneg hpos]
  have := (h.inside _ hmem).1
  omega

theorem nodup_workers (h : M.Saturates n m) : (M.pairs.map fun x => x.1).Nodup :=
  M.nodup_pairs.map_on fun x hx y hy =>
    h.pairs.worker_once x (List.mem_toFinset.mpr hx) y (List.mem_toFinset.mpr hy)

theorem nodup_filter (h : M.Saturates n m) : (M.filter fun w => decide (0 ≤ w)).Nodup := by
  have hmap : (M.pairs.map fun x => (x.1 : Int)) = (M.pairs.map fun x => x.1).map Nat.cast := by
    rw [List.map_map]
    rfl
  rw [filter_nonneg, hmap]
  exact h.nodup_workers.map Nat.cast_injective

/-- Every job without a worker is open. -/
theorem unmatched (h : M.Saturates n m) : M.count (-1) = m - n := by
  -- Entries are workers or say that the job is open, and the workers have been counted.
  have hsplit := List.length_eq_countP_add_countP (l := M) fun w : Int => decide (0 ≤ w)
  have hopen : M.countP (fun w => ¬decide (0 ≤ w) = true) = M.count (-1) := by
    rw [List.count]
    refine List.countP_congr fun w hw => ?_
    have := h.entry w hw
    simp only [decide_eq_true_eq, beq_iff_eq]
    omega
  rw [List.countP_eq_length_filter, h.matched, h.length, hopen] at hsplit
  omega

theorem mem_iff (w : Nat) : (w : Int) ∈ M ↔ w ∈ M.pairs.map fun x => x.1 := by
  rw [List.mem_map]
  constructor
  · intro hw
    rcases List.getElem?_of_mem hw with ⟨j, hj⟩
    exact ⟨(w, j), mem_pairs.mpr hj, rfl⟩
  · rintro ⟨x, hx, rfl⟩
    exact List.mem_of_getElem? (mem_pairs.mp hx)

/-- Every worker is matched or left over. -/
theorem length_idle (h : M.Saturates n m) : (M.idle n).length = n - m := by
  -- The matched workers and the idle ones together are all workers, each of them once.
  have hperm : (M.pairs.map (fun x => x.1) ++ M.idle n).Perm (List.range n) := by
    refine (List.perm_ext_iff_of_nodup ?_ List.nodup_range).mpr fun w => ?_
    · refine h.nodup_workers.append (List.nodup_range.filter _) fun w hw hidle => ?_
      exact (mem_idle.mp hidle).2 ((mem_iff w).mpr hw)
    · rw [List.mem_append, List.mem_range, ← mem_iff, mem_idle]
      constructor
      · rintro (hw | hw)
        · exact Int.ofNat_lt.mp (h.lt_of_mem hw (Int.natCast_nonneg w))
        · exact hw.1
      · intro hw
        by_cases hmem : (w : Int) ∈ M
        · exact Or.inl hmem
        · exact Or.inr ⟨hw, hmem⟩
  have hlen := hperm.length_eq
  rw [List.length_append, List.length_map, h.length_pairs, List.length_range] at hlen
  omega

/-- With as many workers as jobs, every worker comes once. -/
theorem perm (h : M.Saturates n m) (hnm : n = m) :
    M.Perm ((List.range n).map fun w : Nat => (w : Int)) := by
  -- No job is open then, so all entries are workers.
  have hall : M.filter (fun w => decide (0 ≤ w)) = M := by
    refine List.filter_eq_self.mpr fun w hw => decide_eq_true ?_
    rcases h.entry w hw with hw' | hw'
    · have hcount := h.unmatched
      rw [hnm, Nat.sub_self, List.count_eq_zero] at hcount
      exact absurd (hw' ▸ hw) hcount
    · exact hw'
  rw [List.perm_ext_iff_of_nodup (hall ▸ h.nodup_filter)
    (List.nodup_range.map Nat.cast_injective)]
  intro w
  rw [List.mem_map]
  constructor
  · intro hw
    rw [← hall, List.mem_filter, decide_eq_true_eq] at hw
    refine ⟨w.toNat, List.mem_range.mpr ?_, Int.toNat_of_nonneg hw.2⟩
    have := h.lt_of_mem hw.1 hw.2
    omega
  · rintro ⟨k, hk, rfl⟩
    -- There is a job for each worker, so none is left over.
    have himage := h.pairs.image_fst (le_of_eq hnm)
    have hk' : k ∈ M.pairs.toFinset.image Prod.fst := himage ▸ Finset.mem_range.mpr
      (List.mem_range.mp hk)
    rcases Finset.mem_image.mp hk' with ⟨x, hx, rfl⟩
    exact (mem_iff x.1).mpr (List.mem_map.mpr ⟨x, List.mem_toFinset.mp hx, rfl⟩)

/-- The outcome of a saturating matching exists, as all of its cells do. -/
theorem ofMatching {costs : Grid α} (h : M.Saturates costs.height costs.width)
    (A : Arithmetic α) (rowPotentials colPotentials : List α) :
    ∃ total, Outcome.addCosts A costs M.pairs A.zero = .ok total ∧
      Outcome.ofMatching A costs M rowPotentials colPotentials = .ok
        { total := total
          workerOf := M
          idle := M.idle costs.height
          status := Status.ofSize costs.height costs.width
          rowPotentials := rowPotentials
          colPotentials := colPotentials } := by
  rcases Outcome.exists_addCosts A costs M.pairs A.zero h.inside with ⟨total, htotal⟩
  refine ⟨total, htotal, ?_⟩
  rw [Outcome.ofMatching, htotal]
  rfl

/-- What the outcome of a saturating matching says of workers and jobs. -/
theorem isSaturated (h : M.Saturates n m) {o : Outcome α} (hM : o.workerOf = M)
    (hidle : o.idle = M.idle n) (hstatus : o.status = Status.ofSize n m) :
    o.IsSaturated n m where
  length_workerOf := hM ▸ h.length
  entry := fun w hw => by
    rw [hM] at hw
    rcases h.entry w hw with hw' | hw'
    · exact Or.inl hw'
    · exact Or.inr ⟨hw', h.lt_of_mem hw hw'⟩
  once := hM ▸ h.nodup_filter
  matched := hM ▸ h.matched
  unmatched := hM ▸ h.unmatched
  idle_pairwise := hidle ▸ List.pairwise_lt_range.filter _
  mem_idle := fun w => by
    rw [hidle, hM, mem_idle]
  length_idle := hidle ▸ h.length_idle
  length_pairs := by
    rw [hM, hidle, h.length_pairs, h.length_idle]
    omega
  vacant := hstatus ▸ Status.ofSize_eq_vacant_iff
  balanced := hstatus ▸ Status.ofSize_eq_balanced_iff
  surplus := hstatus ▸ Status.ofSize_eq_surplus_iff
  perm := fun hnm => hM ▸ h.perm hnm

section Exact

variable [CommRing α] [LinearOrder α] {costs : Grid α}

/-- In exact arithmetic the total of an outcome is the cost of its pairs. -/
theorem total_eq (h : M.Saturates costs.height costs.width) {total : α}
    (htotal : Outcome.addCosts .ofOrder costs M.pairs 0 = .ok total) :
    total = costs.costOf M.pairs.toFinset := by
  have heq := Outcome.addCosts_ofOrder costs M.pairs 0 h.inside
  rw [htotal, zero_add] at heq
  rw [Grid.costOf, List.sum_toFinset _ M.nodup_pairs]
  exact Except.ok.inj heq

/-- The outcome of a saturating matching in exact arithmetic. -/
theorem outcome_eq (h : M.Saturates costs.height costs.width)
    (rowPotentials colPotentials : List α) :
    Outcome.ofMatching .ofOrder costs M rowPotentials colPotentials = .ok
      { total := costs.costOf M.pairs.toFinset
        workerOf := M
        idle := M.idle costs.height
        status := Status.ofSize costs.height costs.width
        rowPotentials := rowPotentials
        colPotentials := colPotentials } := by
  rcases h.ofMatching .ofOrder rowPotentials colPotentials with ⟨total, htotal, heq⟩
  rw [heq, h.total_eq htotal]

end Exact

end Matching.Saturates

end Roster
