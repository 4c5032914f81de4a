import Roster.Proofs.Pairing.Matching

/-!
# Pairings by Position

A pairing comes in three shapes: as a set of pairs, as the workers in job order, and as the
jobs in worker order. The methods find it in one shape and answer in another, so the shapes
have to be told from each other exactly: with two sides of different length, a list that is
read the wrong way round is a pairing of another table.

Jobs in worker order can say everything only if every worker has a job, so they stand for
the saturating pairings of a table that has no more workers than jobs. The other tables are
turned over first.

## Theorems

* `Matching.mem_jobPairs`: The pairs of a list of jobs.
* `Matching.saturating_jobPairs`: Distinct jobs in worker order saturate a table.
* `Saturating.exists_jobs`: Every saturating pairing is such a list.
* `Saturating.swap`: A table that is turned over.
* `Matching.mem_pairs_place`: Placing pairs makes a matching of them.
* `Matching.saturates_place`: Placing a saturating pairing.
-/

namespace Roster

variable {n m : Nat} {M : Finset (Nat × Nat)}

/-- A pairing that saturates a table saturates it turned over. -/
theorem Saturating.swap (h : Saturating n m M) : Saturating m n (M.image Prod.swap) where
  inside := fun x hx => by
    rcases Finset.mem_image.mp hx with ⟨y, hy, rfl⟩
    exact (h.inside y hy).symm
  worker_once := fun x hx y hy heq => by
    rcases Finset.mem_image.mp hx with ⟨x', hx', rfl⟩
    rcases Finset.mem_image.mp hy with ⟨y', hy', rfl⟩
    rw [h.job_once x' hx' y' hy' heq]
  job_once := fun x hx y hy heq => by
    rcases Finset.mem_image.mp hx with ⟨x', hx', rfl⟩
    rcases Finset.mem_image.mp hy with ⟨y', hy', rfl⟩
    rw [h.worker_once x' hx' y' hy' heq]
  card := by
    rw [Finset.card_image_of_injective M Prod.swap_injective, h.card, Nat.min_comm]

theorem mem_image_swap {w j : Nat} : (w, j) ∈ M.image Prod.swap ↔ (j, w) ∈ M := by
  rw [Finset.mem_image]
  constructor
  · rintro ⟨x, hx, heq⟩
    rw [← (Prod.mk.inj heq).1, ← (Prod.mk.inj heq).2]
    exact hx
  · exact fun hx => ⟨(j, w), hx, rfl⟩

theorem sum_image_swap {α : Type} [AddCommMonoid α] (f : Nat → Nat → α) :
    ∑ x ∈ M.image Prod.swap, f x.1 x.2 = ∑ x ∈ M, f x.2 x.1 :=
  Finset.sum_image Prod.swap_injective.injOn

namespace Matching

/-! ### Jobs in worker order -/

theorem mem_jobPairs {jobs : List Nat} {w j : Nat} :
    (w, j) ∈ jobPairs jobs ↔ jobs[w]? = some j := by
  rw [jobPairs, List.mem_map]
  constructor
  · rintro ⟨⟨k, v⟩, hx, heq⟩
    rw [List.mem_zipIdx_iff_getElem?] at hx
    rw [← (Prod.mk.inj heq).1, ← (Prod.mk.inj heq).2]
    exact hx
  · exact fun h => ⟨(j, w), List.mem_zipIdx_iff_getElem?.mpr h, rfl⟩

theorem nodup_jobPairs (jobs : List Nat) : (jobPairs jobs).Nodup := by
  refine List.Nodup.map Prod.swap_injective ?_
  refine List.Nodup.of_map Prod.snd ?_
  rw [List.zipIdx_map_snd]
  exact List.nodup_range'

/-- Distinct jobs in worker order saturate a table that has enough of them. -/
theorem saturating_jobPairs {jobs : List Nat} (hlen : jobs.length = n) (hnodup : jobs.Nodup)
    (hjobs : ∀ j ∈ jobs, j < m) : Saturating n m (jobPairs jobs).toFinset := by
  have hmem : ∀ {x : Nat × Nat}, x ∈ (jobPairs jobs).toFinset → jobs[x.1]? = some x.2 := fun hx =>
    mem_jobPairs.mp (List.mem_toFinset.mp hx)
  have hsub : jobs ⊆ List.range m := fun j hj => List.mem_range.mpr (hjobs j hj)
  refine ⟨fun x hx => ?_, fun x hx y hy heq => ?_, fun x hx y hy heq => ?_, ?_⟩
  · rcases List.getElem?_eq_some_iff.mp (hmem hx) with ⟨hw, hj⟩
    exact ⟨hlen ▸ hw, hjobs _ (hj ▸ List.getElem_mem hw)⟩
  · have hx' := hmem hx
    rw [heq, hmem hy] at hx'
    exact Prod.ext heq (Option.some.inj hx').symm
  · have hx' := hmem hx
    rw [heq, ← hmem hy] at hx'
    rcases List.getElem?_eq_some_iff.mp (hmem hx) with ⟨hw, _⟩
    exact Prod.ext ((List.getElem?_inj hw hnodup).mp hx') heq
  · -- Distinct jobs below `m` are no more than `m`, so the workers are the smaller side.
    have hle := (hnodup.subperm hsub).length_le
    rw [List.length_range, hlen] at hle
    rw [List.toFinset_card_of_nodup (nodup_jobPairs jobs), jobPairs, List.length_map,
      List.length_zipIdx, hlen, min_eq_left hle]

end Matching

/-- Every pairing that matches all workers is a list of distinct jobs in worker order. -/
theorem Saturating.exists_jobs (h : Saturating n m M) (hnm : n ≤ m) :
    ∃ jobs : List Nat, jobs.length = n ∧ jobs.Nodup ∧ (∀ j ∈ jobs, j < m) ∧
      (Matching.jobPairs jobs).toFinset = M := by
  have hex : ∀ w, ∃ j, w < n → (w, j) ∈ M := by
    intro w
    by_cases hw : w < n
    · have hmem : w ∈ M.image Prod.fst := h.image_fst hnm ▸ Finset.mem_range.mpr hw
      rcases Finset.mem_image.mp hmem with ⟨x, hx, rfl⟩
      exact ⟨x.2, fun _ => hx⟩
    · exact ⟨0, fun h => absurd h hw⟩
  -- The list reads one such job for each worker; there is no other choice.
  choose job hjob using hex
  refine ⟨(List.range n).map job, ?_, ?_, ?_, ?_⟩
  · rw [List.length_map, List.length_range]
  · refine List.nodup_range.map_on fun w hw w' hw' heq => ?_
    rw [List.mem_range] at hw hw'
    exact congrArg Prod.fst (h.job_once _ (hjob w hw) _ (hjob w' hw') heq)
  · intro j hj
    rcases List.mem_map.mp hj with ⟨w, hw, rfl⟩
    exact (h.inside _ (hjob w (List.mem_range.mp hw))).2
  · ext ⟨w, j⟩
    rw [List.mem_toFinset, Matching.mem_jobPairs, List.getElem?_map]
    constructor
    · intro hj
      rcases Option.map_eq_some_iff.mp hj with ⟨w', hw', rfl⟩
      rcases List.getElem?_eq_some_iff.mp hw' with ⟨hlt, heq⟩
      rw [List.getElem_range] at heq
      subst heq
      exact hjob w (by simpa only [List.length_range] using hlt)
    · intro hx
      have hw := (h.inside _ hx).1
      rw [List.getElem?_range hw, Option.map_some]
      exact congrArg some (congrArg Prod.snd (h.worker_once _ (hjob w hw) _ hx rfl))

/-- Every pairing that matches two workers is a choice of two jobs. -/
theorem Saturating.exists_two_jobs (h : Saturating 2 m M) (hm : 2 ≤ m) :
    ∃ j k : Fin m, [j.val, k.val].Nodup ∧ (Matching.jobPairs [j.val, k.val]).toFinset = M := by
  rcases h.exists_jobs hm with ⟨jobs, hlen, hnodup, hjobs, rfl⟩
  rcases List.length_eq_two.mp hlen with ⟨j, k, rfl⟩
  exact ⟨⟨j, hjobs j List.mem_cons_self⟩, ⟨k, hjobs k (List.mem_cons_of_mem j List.mem_cons_self)⟩,
    hnodup, rfl⟩

namespace Matching

/-! ### Workers in job order -/

theorem place_concat (jobs : Nat) (pairs : List (Nat × Nat)) (x : Nat × Nat) :
    place jobs (pairs ++ [x]) = (place jobs pairs).set x.2 (x.1 : Int) := by
  rw [place, List.foldl_append, List.foldl_cons, List.foldl_nil, place]

theorem length_place (jobs : Nat) (pairs : List (Nat × Nat)) :
    (place jobs pairs).length = jobs := by
  induction pairs using List.reverseRecOn with
  | nil => exact List.length_replicate
  | append_singleton pairs x ih => rw [place_concat, List.length_set, ih]

/-- Placing pairs makes a matching of them, if no job comes twice. -/
theorem mem_pairs_place {jobs : Nat} {pairs : List (Nat × Nat)} (hinside : ∀ x ∈ pairs, x.2 < jobs)
    (honce : ∀ x ∈ pairs, ∀ y ∈ pairs, x.2 = y.2 → x = y) {w j : Nat} :
    (w, j) ∈ (place jobs pairs).pairs ↔ (w, j) ∈ pairs := by
  rw [mem_pairs]
  induction pairs using List.reverseRecOn with
  | nil =>
      simp only [List.not_mem_nil, iff_false]
      intro hj
      have := List.eq_of_mem_replicate (List.mem_of_getElem? hj)
      omega
  | append_singleton pairs x ih =>
      have hx := List.mem_append_right pairs (List.mem_singleton_self x)
      have hrest := ih (fun y hy => hinside y (List.mem_append_left _ hy))
        fun y hy z hz => honce y (List.mem_append_left _ hy) z (List.mem_append_left _ hz)
      -- The last pair decides its own job, and no other pair has that job.
      rw [place_concat, List.mem_append, List.mem_singleton]
      by_cases hj : x.2 = j
      · subst hj
        rw [List.getElem?_set_self ((length_place jobs pairs).symm ▸ hinside x hx),
          Option.some.injEq]
        constructor
        · exact fun heq => Or.inr (Prod.ext (Int.ofNat_inj.mp heq).symm rfl)
        · rintro (hmem | heq)
          · rw [← honce _ (List.mem_append_left _ hmem) x hx rfl]
          · rw [← heq]
      · rw [List.getElem?_set_ne hj, hrest]
        constructor
        · exact Or.inl
        · rintro (hmem | heq)
          · exact hmem
          · exact absurd (congrArg Prod.snd heq).symm hj

theorem entry_place (jobs : Nat) (pairs : List (Nat × Nat)) :
    ∀ w ∈ place jobs pairs, w = -1 ∨ 0 ≤ w := by
  induction pairs using List.reverseRecOn with
  | nil => exact fun w hw => Or.inl (List.eq_of_mem_replicate hw)
  | append_singleton pairs x ih =>
      intro w hw
      rw [place_concat] at hw
      rcases List.mem_or_eq_of_mem_set hw with hw | rfl
      · exact ih w hw
      · exact Or.inr (Int.natCast_nonneg _)

/-- Placing a pairing that saturates a table. -/
theorem saturates_place {pairs : List (Nat × Nat)} (h : Saturating n m pairs.toFinset) :
    (place m pairs).Saturates n m ∧ (place m pairs).pairs.toFinset = pairs.toFinset := by
  have heq : (place m pairs).pairs.toFinset = pairs.toFinset := by
    ext ⟨w, j⟩
    rw [List.mem_toFinset, List.mem_toFinset]
    refine mem_pairs_place (fun x hx => (h.inside x (List.mem_toFinset.mpr hx)).2)
      fun x hx y hy => h.job_once x (List.mem_toFinset.mpr hx) y (List.mem_toFinset.mpr hy)
  exact ⟨⟨length_place m pairs, entry_place m pairs, heq ▸ h⟩, heq⟩

end Matching

end Roster
