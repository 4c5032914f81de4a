import Roster.Proofs.Exhaustive.Selections
import Roster.Proofs.Fallible
import Roster.Proofs.Padded.Saturation
import Roster.Proofs.Pairing.Position

/-!
# Matchings Inside a Table

A matching lies inside a table if it has one entry for each job, and no entry goes beyond the
workers. Then every matched pair has a cell, so the matching has an outcome. Whether the
numbers of an arithmetic are worth anything does not matter for that: each search takes its
workers and jobs from the table, however badly it chooses.

## Main definitions

* `Matching.Inside`: A matching inside a table.

## Theorems

* `Matching.Inside.exists_outcome`: A matching inside a table has an outcome.
* `Outcome.inside_of_ofMatching`: A matching with an outcome lies inside its table.
* `Padded.exists_outcome_or_endless`: The padded search fails on its own matrix only by not
  ending.
* `Matching.inside_place`, `Padded.inside_workerOf`, `Exhaustive.inside_matching`: The
  matchings of all searches lie inside their tables.
-/

namespace Roster

namespace Matching

variable {n m : Nat} {M : Matching}

/-- One entry for each of `m` jobs, none of which goes beyond `n` workers. -/
structure Inside (n m : Nat) (M : Matching) : Prop where
  length : M.length = m
  lt : ∀ w ∈ M, w < n

theorem Inside.pairs (h : M.Inside n m) : ∀ x ∈ M.pairs, x.1 < n ∧ x.2 < m := by
  intro x hx
  have hentry := mem_pairs.mp hx
  have hjob := (List.getElem?_eq_some_iff.mp hentry).1
  have hworker := h.lt _ (List.mem_of_getElem? hentry)
  have hlen := h.length
  omega

theorem Inside.exists_outcome {α : Type} {costs : Grid α}
    (h : M.Inside costs.height costs.width) (A : Arithmetic α) (u v : List α) :
    ∃ o, Outcome.ofMatching A costs M u v = .ok o := by
  rcases Outcome.exists_addCosts A costs M.pairs A.zero h.pairs with ⟨total, htotal⟩
  rw [Outcome.ofMatching, htotal]
  exact ⟨_, rfl⟩

theorem inside_unassigned : (unassigned m).Inside n m where
  length := List.length_replicate
  lt := fun w hw => by
    have := List.eq_of_mem_replicate hw
    omega

/-- Placing workers below `n` at jobs, one after the other, never goes beyond them. -/
theorem inside_place {pairs : List (Nat × Nat)} (h : ∀ x ∈ pairs, x.1 < n) :
    (place m pairs).Inside n m := by
  induction pairs using List.reverseRecOn with
  | nil => exact inside_unassigned
  | append_singleton pairs x ih =>
      rcases ih fun y hy => h y (by simp [hy]) with ⟨hlen, hlt⟩
      rw [place_concat]
      refine ⟨by rw [List.length_set, hlen], ?_⟩
      intro w hw
      rcases List.mem_or_eq_of_mem_set hw with hw | rfl
      · exact hlt w hw
      · have := h x (by simp)
        omega

end Matching

namespace Outcome

variable {α : Type} {A : Arithmetic α} {costs : Grid α}

/-- Costs that can be added are those of pairs inside a table. -/
theorem inside_of_addCosts {xs : List (Nat × Nat)} {sum total : α}
    (h : addCosts A costs xs sum = .ok total) :
    ∀ x ∈ xs, x.1 < costs.height ∧ x.2 < costs.width := by
  induction xs generalizing sum with
  | nil => exact fun x hx => absurd hx List.not_mem_nil
  | cons x rest ih =>
      rw [addCosts] at h
      by_cases hx : x.1 < costs.height ∧ x.2 < costs.width
      · rw [Grid.get?, dif_pos hx] at h
        exact List.forall_mem_cons.mpr ⟨hx, ih h⟩
      · rw [Grid.get?, dif_neg hx] at h
        exact absurd h (by simp only [reduceCtorEq, not_false_eq_true])

/-- A matching that has an entry for each job and an outcome lies inside its table, wherever it
    was taken from. -/
theorem inside_of_ofMatching {M : Matching} {u v : List α} {o : Outcome α}
    (h : ofMatching A costs M u v = .ok o) (hlen : M.length = costs.width) :
    o.workerOf.Inside costs.height costs.width ∧ o.idle = o.workerOf.idle costs.height := by
  rcases map_eq_ok_iff.mp h with ⟨total, htotal, rfl⟩
  refine ⟨⟨hlen, fun w hw => ?_⟩, rfl⟩
  by_cases hpos : 0 ≤ w
  · obtain ⟨k, rfl⟩ := Int.eq_ofNat_of_zero_le hpos
    rcases List.getElem?_of_mem hw with ⟨j, hj⟩
    exact Int.ofNat_lt.mpr (inside_of_addCosts htotal (k, j) (Matching.mem_pairs.mpr hj)).1
  · omega

end Outcome

namespace Padded

variable {α : Type} {n m N : Nat}

/-- The search gives every job a real worker or none. -/
theorem inside_workerOf (hm : m ≤ N) (s : Search.State α N) : (workerOf n m s).Inside n m := by
  constructor
  · simp [workerOf]
    omega
  · intro w hw
    rcases List.mem_map.mp hw with ⟨r, _, rfl⟩
    unfold worker
    split
    · omega
    · omega

/-- A matrix of the declared size has an outcome by the search, unless the search does not
    end. -/
theorem exists_outcome_or_endless (A : Arithmetic α) (costs : Grid α) (padding reach : α) :
    (∃ o, solve A costs costs.height costs.width padding reach = .ok o) ∨
      solve A costs costs.height costs.width padding reach = .error .endless := by
  rw [solve]
  by_cases hempty : costs.height = 0 ∨ costs.width = 0
  · rw [if_pos hempty]
    exact Or.inl (Matching.inside_unassigned.exists_outcome A [] [])
  · rw [if_neg hempty]
    simp only [exceeds_own, Bool.false_eq_true, if_false]
    cases Search.final A (max costs.height costs.width) (cell costs padding) reach with
    | none => exact Or.inr rfl
    | some s => exact Or.inl ((inside_workerOf (by omega) s).exists_outcome A _ _)

end Padded

namespace Exhaustive

variable {α σ ι : Type}

/-- A choice that is kept is one of those that were tried. -/
theorem foldl_keep_mem {A : Arithmetic α} {bounded : α → Bool} {total : List ι → α}
    {xs : List (List ι)} {least : α} {choice : List ι}
    (h : xs.foldl (fun best x => keep A bounded (total x) x best) none = some (least, choice)) :
    choice ∈ xs := by
  induction xs using List.reverseRecOn generalizing least choice with
  | nil => simp at h
  | append_singleton xs x ih =>
      rw [List.foldl_append, List.foldl_cons, List.foldl_nil] at h
      cases hbest : xs.foldl (fun best x => keep A bounded (total x) x best) none with
      | none =>
          rw [hbest, keep] at h
          split at h
          · simp_all
          · simp at h
      | some best =>
          rcases best with ⟨value, kept⟩
          have hkept := ih hbest
          rw [hbest, keep] at h
          split at h
          · simp_all
          · simp_all

/-- The choice for `p` members of one side takes `p` different members of the other. -/
theorem leastChoice_mem {A : Arithmetic α} {bounded : α → Bool} {p q : Nat}
    {cost : Fin p → Fin q → α} {least : α} {choice : List (Fin q)}
    (h : leastChoice A bounded cost (List.finRange p) (List.finRange q) = some (least, choice)) :
    choice.length = p ∧ choice.Nodup := by
  rw [leastChoice, explore_eq] at h
  have hmem := (mem_selections (List.nodup_finRange q)).mp (foldl_keep_mem h)
  rw [List.length_finRange] at hmem
  exact ⟨hmem.1, hmem.2.1⟩

/-- The matching of least total lies inside its table, by whatever numbers it was chosen. -/
theorem inside_matching (A : Arithmetic α) (bounded : α → Bool) (costs : Grid α) :
    (matching A bounded costs).Inside costs.height costs.width := by
  unfold matching
  by_cases hempty : costs.height = 0 ∨ costs.width = 0
  · rw [if_pos hempty]
    exact Matching.inside_unassigned
  · rw [if_neg hempty]
    by_cases hle : costs.height ≤ costs.width
    · rw [if_pos hle]
      split
      · rename_i least jobs hjobs
        -- A job has the worker at whose place it stands in the choice.
        have hlen := (leastChoice_mem hjobs).1
        refine ⟨by simp [ofJobs], fun w hw => ?_⟩
        rcases List.mem_map.mp hw with ⟨j, _, rfl⟩
        split
        · rename_i k hk
          have hlt := (List.idxOf?_eq_some_iff.mp hk).1
          rw [List.length_map] at hlt
          omega
        · omega
      · exact Matching.inside_unassigned
    · rw [if_neg hle]
      split
      · rename_i least workers hworkers
        -- Here the choice is the matching itself.
        have hlen := (leastChoice_mem hworkers).1
        refine ⟨by simp [hlen], fun w hw => ?_⟩
        rcases List.mem_map.mp hw with ⟨v, _, rfl⟩
        exact Int.ofNat_lt.mpr v.isLt
      · exact Matching.inside_unassigned

end Exhaustive

end Roster
