import Roster.Proofs.Exhaustive.Selections
import Roster.Proofs.Pairing.Position

/-!
# The Exhaustive Search Is Exact

With exact numbers, what is tried is every saturating pairing once, so the first least
choice is a cheapest pairing. The search chooses for the smaller side: jobs in worker order
if there are no more workers than jobs, and otherwise workers in job order, which are
jobs in worker order for the table turned over. One lemma about choices serves both.

## Theorems

* `ranks_ofOrder`: Exact numbers are ranked.
* `totalFrom_eq`: The total of a choice is the cost of its pairs.
* `exists_leastChoice`: The search finds a cheapest choice.
* `isCheapest_matching`: The matching that is made of it is a cheapest one.
-/

namespace Roster

namespace Exhaustive

variable {α σ ι : Type}

namespace IsFirstLeast

variable {A : Arithmetic α} {bounded : α → Bool} {total : ι → α} {xs : List ι} {x : ι}

theorem mem (h : IsFirstLeast A bounded total xs x) : x ∈ xs := by
  rcases h with ⟨_, before, after, rfl, _⟩
  exact List.mem_append_right before List.mem_cons_self

/-- No other choice has a total below that of the first least one. -/
theorem not_less (hrank : Ranks A bounded) (h : IsFirstLeast A bounded total xs x) {y : ι}
    (hy : y ∈ xs) (hbound : bounded (total y) = true) : A.less (total y) (total x) = false := by
  rcases h with ⟨hx, before, after, rfl, hbefore, hafter⟩
  rcases List.mem_append.mp hy with hy | hy
  · exact hrank.asymm _ _ hx hbound (hbefore y hy hbound)
  · rcases List.mem_cons.mp hy with rfl | hy
    · by_contra hless
      rw [Bool.not_eq_false] at hless
      exact absurd (hrank.asymm _ _ hx hx hless) (by rw [hless]; exact Bool.true_eq_false_eq_False)
    · exact hafter y hy hbound

end IsFirstLeast

variable [CommRing α] [LinearOrder α]

theorem ranks_ofOrder (bounded : α → Bool) : Ranks .ofOrder bounded where
  asymm := fun _ _ _ _ hab => decide_eq_false (lt_asymm (of_decide_eq_true hab))
  below := fun _ _ _ _ _ _ hab hcb =>
    decide_eq_true (lt_of_lt_of_le (of_decide_eq_true hab) (not_lt.mp (of_decide_eq_false hcb)))

theorem totalFrom_eq (cost : σ → ι → α) (side : List σ) (choice : List ι) (sum : α) :
    totalFrom .ofOrder cost side choice sum =
      sum + ((side.zip choice).map fun x => cost x.1 x.2).sum := by
  induction side generalizing choice sum with
  | nil => rw [totalFrom, List.zip_nil_left, List.map_nil, List.sum_nil, add_zero]
  | cons s rest ih =>
      cases choice with
      | nil => rw [totalFrom, List.zip_nil_right, List.map_nil, List.sum_nil, add_zero]
      | cons x choice =>
          rw [totalFrom, ih, List.zip_cons_cons, List.map_cons, List.sum_cons, ← add_assoc]
          rfl

variable {p q : Nat}

/-- The total of a choice is the cost of its pairs. -/
theorem totalFrom_finRange (cost : Nat → Nat → α) {choice : List (Fin q)}
    (hlen : choice.length = p) :
    totalFrom .ofOrder (fun (s : Fin p) (x : Fin q) => cost s x) (List.finRange p) choice 0 =
      ∑ x ∈ (Matching.jobPairs (choice.map Fin.val)).toFinset, cost x.1 x.2 := by
  rw [totalFrom_eq, zero_add, List.sum_toFinset _ (Matching.nodup_jobPairs _)]
  refine congrArg List.sum (List.ext_getElem ?_ fun k hk hk' => ?_)
  · simp only [Matching.jobPairs, List.length_map, List.length_zip, List.length_finRange,
      List.length_zipIdx, hlen, min_self]
  · simp only [Matching.jobPairs, List.getElem_map, List.getElem_zip, List.getElem_finRange,
      List.getElem_zipIdx, Prod.swap_prod_mk, Fin.val_cast, Nat.zero_add]

/-- A list of numbers below a bound is a list of such numbers. -/
theorem exists_fin {jobs : List Nat} (h : ∀ j ∈ jobs, j < q) :
    ∃ choice : List (Fin q), choice.map Fin.val = jobs := by
  refine ⟨jobs.pmap Fin.mk h, ?_⟩
  rw [List.map_pmap, List.pmap_eq_map, List.map_id']

/-- The search finds a choice of members of the larger side for the smaller one, and no saturating
    pairing of the two costs less. -/
theorem exists_leastChoice (hpq : p ≤ q) (cost : Nat → Nat → α) :
    ∃ (least : α) (choice : List (Fin q)),
      leastChoice .ofOrder (fun _ => true) (fun (s : Fin p) (x : Fin q) => cost s x)
        (List.finRange p) (List.finRange q) = some (least, choice) ∧
      (choice.map Fin.val).Nodup ∧
      Saturating p q (Matching.jobPairs (choice.map Fin.val)).toFinset ∧
      ∀ M, Saturating p q M →
        ∑ x ∈ (Matching.jobPairs (choice.map Fin.val)).toFinset, cost x.1 x.2 ≤
          ∑ x ∈ M, cost x.1 x.2 := by
  have hbest := leastChoice_isBest (ranks_ofOrder fun _ => true)
    (fun (s : Fin p) (x : Fin q) => cost s x) (List.finRange p) (List.finRange q)
  rw [List.length_finRange] at hbest
  have hmem : ∀ {choice : List (Fin q)}, choice ∈ selections p (List.finRange q) ↔
      choice.length = p ∧ (choice.map Fin.val).Nodup := by
    intro choice
    rw [mem_selections (List.nodup_finRange q), List.nodup_map_iff Fin.val_injective]
    exact ⟨fun h => ⟨h.1, h.2.1⟩, fun h => ⟨h.1, h.2, fun x _ => List.mem_finRange x⟩⟩
  cases hleast : leastChoice .ofOrder (fun _ => true) (fun (s : Fin p) (x : Fin q) => cost s x)
      (List.finRange p) (List.finRange q) with
  | none =>
      -- There is something to choose, and every total can win.
      rw [hleast] at hbest
      have htake : (List.finRange q).take p ∈ selections p (List.finRange q) := by
        rw [hmem, List.length_take, List.length_finRange, List.nodup_map_iff Fin.val_injective]
        exact ⟨min_eq_left hpq, (List.nodup_finRange q).sublist (List.take_sublist p _)⟩
      exact absurd (hbest _ htake) Bool.true_eq_false_eq_False
  | some best =>
      rcases best with ⟨least, choice⟩
      rw [hleast] at hbest
      rcases hbest with ⟨_, hfirst⟩
      rcases hmem.mp hfirst.mem with ⟨hlen, hnodup⟩
      refine ⟨least, choice, rfl, hnodup, ?_, fun M hM => ?_⟩
      · refine Matching.saturating_jobPairs ((List.length_map _).trans hlen) hnodup fun j hj => ?_
        rcases List.mem_map.mp hj with ⟨x, _, rfl⟩
        exact x.isLt
      · -- Any other pairing is a choice too, and the first least one is not above it.
        rcases hM.exists_jobs hpq with ⟨jobs, hlen', hnodup', hjobs, rfl⟩
        rcases exists_fin hjobs with ⟨other, rfl⟩
        rw [List.length_map] at hlen'
        have hle := hfirst.not_less (ranks_ofOrder fun _ => true) (hmem.mpr ⟨hlen', hnodup'⟩) rfl
        rw [← totalFrom_finRange cost hlen, ← totalFrom_finRange cost hlen']
        exact not_lt.mp (of_decide_eq_false hle)

variable {costs : Grid α} {n m : Nat}

/-! ### Jobs for workers -/

theorem mem_pairs_ofJobs {jobs : List Nat} (hnodup : jobs.Nodup) {w j : Nat} :
    (w, j) ∈ (ofJobs m jobs).pairs ↔ j < m ∧ jobs[w]? = some j := by
  rw [Matching.mem_pairs, ofJobs, List.getElem?_map]
  -- The worker of a job is the place where the job stands in the list, which is only one.
  by_cases hj : j < m
  · rw [List.getElem?_range hj, Option.map_some, Option.some.injEq]
    cases hidx : jobs.idxOf? j with
    | none =>
        rw [List.idxOf?_eq_none_iff] at hidx
        constructor
        · intro h
          exact absurd h (by simp only [reduceCtorEq, not_false_eq_true])
        · exact fun h => absurd (List.mem_of_getElem? h.2) hidx
    | some k =>
        rcases List.idxOf?_eq_some_iff.mp hidx with ⟨hk, hget, _⟩
        simp only [Int.ofNat_inj]
        constructor
        · rintro rfl
          exact ⟨hj, List.getElem?_eq_some_iff.mpr ⟨hk, hget⟩⟩
        · rintro ⟨_, hw⟩
          refine (List.getElem?_inj hk hnodup).mp ?_
          rw [hw, List.getElem?_eq_getElem hk, hget]
  · rw [List.getElem?_eq_none (by rw [List.length_range]; omega), Option.map_none]
    constructor
    · intro h
      exact absurd h (by simp only [reduceCtorEq, not_false_eq_true])
    · exact fun h => absurd h.1 hj

theorem saturates_ofJobs {jobs : List Nat} (hnodup : jobs.Nodup)
    (h : Saturating n m (Matching.jobPairs jobs).toFinset) :
    (ofJobs m jobs).Saturates n m ∧
      (ofJobs m jobs).pairs.toFinset = (Matching.jobPairs jobs).toFinset := by
  have heq : (ofJobs m jobs).pairs.toFinset = (Matching.jobPairs jobs).toFinset := by
    ext ⟨w, j⟩
    rw [List.mem_toFinset, mem_pairs_ofJobs hnodup, ← Matching.mem_jobPairs, ← List.mem_toFinset]
    exact ⟨fun hx => hx.2, fun hx => ⟨(h.inside _ hx).2, hx⟩⟩
  refine ⟨⟨?_, fun w hw => ?_, heq ▸ h⟩, heq⟩
  · rw [ofJobs, List.length_map, List.length_range]
  · rcases List.mem_map.mp hw with ⟨j, _, rfl⟩
    split
    · exact Or.inr (Int.natCast_nonneg _)
    · exact Or.inl rfl

/-! ### Workers for jobs -/

/-- The matching of workers in job order is the table turned over. -/
theorem saturates_workers {workers : List (Fin n)} (hlen : workers.length = m)
    (h : Saturating m n (Matching.jobPairs (workers.map Fin.val)).toFinset) :
    Matching.Saturates n m (workers.map fun w => (w.val : Int)) ∧
      (Matching.pairs (workers.map fun w => (w.val : Int))).toFinset =
        (Matching.jobPairs (workers.map Fin.val)).toFinset.image Prod.swap := by
  have heq : (Matching.pairs (workers.map fun w => (w.val : Int))).toFinset =
      (Matching.jobPairs (workers.map Fin.val)).toFinset.image Prod.swap := by
    ext ⟨w, j⟩
    rw [mem_image_swap, List.mem_toFinset, List.mem_toFinset, Matching.mem_pairs,
      Matching.mem_jobPairs, List.getElem?_map, List.getElem?_map]
    cases workers[j]? with
    | none => simp only [Option.map_none, reduceCtorEq]
    | some v => simp only [Option.map_some, Option.some.injEq, Int.ofNat_inj]
  refine ⟨⟨(List.length_map _).trans hlen, fun w hw => ?_, heq ▸ h.swap⟩, heq⟩
  rcases List.mem_map.mp hw with ⟨v, _, rfl⟩
  exact Or.inr (Int.natCast_nonneg _)

/-! ### The cheapest matching -/

/-- With exact numbers the matching of least total saturates its table, and no saturating
    pairing costs less. -/
theorem isCheapest_matching (costs : Grid α) :
    (matching .ofOrder (fun _ => true) costs).Saturates costs.height costs.width ∧
      IsCheapest costs (matching .ofOrder (fun _ => true) costs).pairs.toFinset := by
  have hcell : (fun (w : Fin costs.height) (j : Fin costs.width) => costs.get w j) =
      fun (w : Fin costs.height) (j : Fin costs.width) => costs.costAt w j := by
    funext w j
    exact (costs.costAt_of_lt w.isLt j.isLt).symm
  by_cases hempty : costs.height = 0 ∨ costs.width = 0
  · rw [matching, if_pos hempty]
    exact ⟨Matching.saturates_unassigned hempty, Matching.isCheapest_unassigned hempty⟩
  · rw [matching, if_neg hempty]
    by_cases hle : costs.height ≤ costs.width
    · rw [if_pos hle, hcell]
      rcases exists_leastChoice hle costs.costAt with ⟨least, jobs, hjobs, hnodup, hsat, hmin⟩
      rw [hjobs]
      rcases saturates_ofJobs hnodup hsat with ⟨h, heq⟩
      exact ⟨h, heq ▸ hsat, heq ▸ hmin⟩
    · have hcell' : (fun (j : Fin costs.width) (w : Fin costs.height) => costs.get w j) =
          fun (j : Fin costs.width) (w : Fin costs.height) =>
            (fun j w : Nat => costs.costAt w j) j w := by
        funext j w
        exact (costs.costAt_of_lt w.isLt j.isLt).symm
      -- The costs are read with their indices exchanged, as the choice is made for jobs.
      rw [if_neg hle, hcell']
      rcases exists_leastChoice (Nat.le_of_not_le hle) fun j w => costs.costAt w j
        with ⟨least, workers, hworkers, hnodup, hsat, hmin⟩
      rw [hworkers]
      have hlen : workers.length = costs.width := by
        have hcard := hsat.card
        rw [List.toFinset_card_of_nodup (Matching.nodup_jobPairs _), Matching.jobPairs,
          List.length_map, List.length_zipIdx, List.length_map] at hcard
        omega
      rcases saturates_workers hlen hsat with ⟨h, heq⟩
      refine ⟨h, h.pairs, fun M hM => ?_⟩
      have hswap := hmin _ hM.swap
      rw [sum_image_swap fun j w => costs.costAt w j] at hswap
      rw [heq, Grid.costOf, sum_image_swap costs.costAt]
      exact hswap

end Exhaustive

end Roster
