import Roster.Proofs.Methods.Exact
import Roster.Solver.Reference

/-!
# The Methods Agree

Four methods go four ways: a search on a square padded with one cost, a library asked about
the rectangle, a library asked about a square of whole numbers with zeros around them, and
every matching in turn. All of them answer with a cheapest matching, so their totals are the
same. Their matchings need not be, since each breaks ties as it likes; but a matching can
be read off its pairs, so where only one pairing is cheapest they are the same too.

What is asked of a library is no more than libraries give. The search on whole numbers
that stands in for one keeps the promise about squares, with a cap that is above all costs,
and the exhaustive search keeps the promise about tables.

## Main definitions

* `Library.exhaustive`: A library that keeps its promises.

## Theorems

* `Reference.lt_bound`: The cap of the search on whole numbers is above all costs.
* `Matching.Saturates.toFinset_jobPairs`: A matching of a square by the columns of the rows.
* `Reference.exists_exactMatching`: The search on whole numbers is exact.
* `Reference.exists_mates`: The columns that it gives to the rows of a square.
* `methods_agree`: The methods agree.
-/

namespace Roster

namespace Reference

/-- One more than the sum of all magnitudes is above every number, and above zero. -/
theorem lt_foldl_natAbs (xs : List Int) (sum : Int) :
    sum ≤ xs.foldl (fun sum c => sum + (c.natAbs : Int)) sum ∧
      ∀ x ∈ xs, sum + x ≤ xs.foldl (fun sum c => sum + (c.natAbs : Int)) sum := by
  induction xs generalizing sum with
  | nil => exact ⟨le_refl _, fun x hx => absurd hx List.not_mem_nil⟩
  | cons y rest ih =>
      rw [List.foldl_cons]
      rcases ih (sum + (y.natAbs : Int)) with ⟨hsum, hrest⟩
      refine ⟨by omega, fun x hx => ?_⟩
      rcases List.mem_cons.mp hx with rfl | hx
      · omega
      · have := hrest x hx
        omega

/-- The cap of the search on whole numbers is above all costs and above zero. -/
theorem lt_bound (costs : Grid Int) :
    0 < bound costs ∧
      ∀ w j, w < costs.height → j < costs.width → costs.costAt w j < bound costs := by
  rcases lt_foldl_natAbs costs.toList 1 with ⟨hone, hall⟩
  refine ⟨Int.lt_of_lt_of_le Int.one_pos hone, fun w j hw hj => ?_⟩
  have hmem : costs.costAt w j ∈ costs.toList := by
    rw [costs.costAt_of_lt hw hj, Grid.toList, Vector.mem_toList_iff]
    exact Vector.getElem_mem _
  have := hall _ hmem
  rw [bound]
  omega

/-- The search on whole numbers answers with a cheapest matching. -/
theorem exists_exactMatching {costs : Grid Int} (hn : costs.height ≠ 0) (hm : costs.width ≠ 0) :
    ∃ M, exactMatching costs = .ok M ∧ M.Saturates costs.height costs.width ∧
      IsCheapest costs M.pairs.toFinset := by
  rcases lt_bound costs with ⟨hpad, hcost⟩
  rcases Padded.exists_outcome hn hm hcost hpad with ⟨s, b, ho⟩
  refine ⟨(Padded.outcome costs s).workerOf, ?_, Padded.saturates_workerOf rfl b.toSettled,
    Padded.isCheapest b⟩
  rw [exactMatching, show integers = .ofOrder from rfl, ho]
  rfl

end Reference

/-- On a square the columns of the rows have the pairs of the matching. -/
theorem Matching.Saturates.toFinset_jobPairs {n : Nat} {M : Matching} (h : M.Saturates n n) :
    (jobPairs ((List.range n).map fun r : Nat => M.idxOf (r : Int))).toFinset =
      M.pairs.toFinset := by
  have hperm := h.perm rfl
  have hnodup : M.Nodup := hperm.nodup_iff.mpr (List.nodup_range.map Nat.cast_injective)
  ext ⟨r, c⟩
  rw [List.mem_toFinset, List.mem_toFinset, mem_jobPairs, mem_pairs, List.getElem?_map]
  constructor
  · -- Every row stands somewhere, so the column of a row is not past the end.
    intro hc
    rcases Option.map_eq_some_iff.mp hc with ⟨r', hr', rfl⟩
    rcases List.getElem?_eq_some_iff.mp hr' with ⟨hlt, heq⟩
    rw [List.getElem_range] at heq
    subst heq
    have hmem : (r : Int) ∈ M := hperm.mem_iff.mpr
      (List.mem_map.mpr ⟨r, List.mem_of_getElem? hr', rfl⟩)
    exact List.getElem?_idxOf hmem
  · intro hr
    rcases List.getElem?_eq_some_iff.mp hr with ⟨hc, hget⟩
    have hlt : r < n := (h.inside (r, c) (mem_pairs.mpr hr)).1
    rw [List.getElem?_range hlt, Option.map_some, ← hget, hnodup.idxOf_getElem]

namespace Reference

/-- On a square its matching is told by the columns of the rows. -/
theorem exists_mates {square : Grid Int} (hn : square.height ≠ 0)
    (hsquare : square.height = square.width) :
    ∃ columns, mates square = .ok columns ∧
      IsCheapest square (Matching.jobPairs columns).toFinset := by
  rcases exists_exactMatching hn (hsquare ▸ hn) with ⟨M, hM, hsat, hmin⟩
  refine ⟨(List.range square.height).map fun r : Nat => M.idxOf (r : Int), ?_, ?_⟩
  · rw [mates, hM]
    rfl
  · rw [← hsquare] at hsat
    rw [hsat.toFinset_jobPairs]
    exact hmin

end Reference

/-- A library that tries every pairing of a table, and searches squares of whole numbers. -/
def Library.exhaustive : Library ℚ where
  pairs costs := .ok (Exhaustive.matching .ofOrder (fun _ => true) costs).pairs
  mates := Reference.mates

theorem Library.exhaustive_isExact : Library.exhaustive.IsExact where
  pairs := fun costs _ _ => ⟨_, rfl, (Exhaustive.isCheapest_matching costs).2⟩
  mates := fun _ hn hsquare => Reference.exists_mates hn hsquare

/-- On rational costs below the cap of the search, the padded and the exhaustive search have
    the same total and shape wherever the latter does not refuse. If only one pairing is
    cheapest and no cost has to be rounded when it is scaled, all methods have the same
    matching too, with libraries that keep their promises. -/
theorem methods_agree (library : Library ℚ) (costs : Grid ℚ) (padding reach scale : ℚ)
    (hpad : padding < reach) (hcost : ∀ w j, costs.get w j < reach) (hscale : 0 < scale) :
    (min costs.height costs.width ≤ Exhaustive.maxSide → ∃ o o',
      Method.padded.solvePrepared (.rational library) costs (.exact padding reach scale) = .ok o ∧
      Method.exhaustive.solvePrepared (.rational library) costs (.exact padding reach scale) =
        .ok o' ∧
      o.total = o'.total ∧ o.status = o'.status) ∧
    (library.IsExact → (∀ M M', IsCheapest costs M → IsCheapest costs M' → M = M') →
      (∀ w j, ∃ k : ℤ, costs.get w j * scale = k) → ∃ o,
      Method.padded.solvePrepared (.rational library) costs (.exact padding reach scale) = .ok o ∧
      ∀ method : Method,
        (method = .exhaustive → min costs.height costs.width ≤ Exhaustive.maxSide) → ∃ o',
          method.solvePrepared (.rational library) costs (.exact padding reach scale) = .ok o' ∧
          o'.workerOf = o.workerOf ∧ o'.idle = o.idle ∧ o'.total = o.total ∧
          o'.status = o.status ∧ o'.workerOf.pairs = o.workerOf.pairs) := by
  rcases padded_isExact library scale hpad hcost with ⟨o, ho, hexact⟩
  refine ⟨fun hside => ?_, fun hlibrary hunique hwhole => ⟨o, ho, fun method hside => ?_⟩⟩
  · rcases exhaustive_isExact library padding reach scale hside with ⟨o', ho', hexact'⟩
    exact ⟨o, o', ho, ho', hexact.total_eq hexact', hexact.status_eq hexact'⟩
  · have hmethod : ∃ o', method.solvePrepared (.rational library) costs
        (.exact padding reach scale) = .ok o' ∧ o'.IsExact costs := by
      cases method with
      | padded => exact ⟨o, ho, hexact⟩
      | exact => exact exact_isExact hlibrary
      | scaled => exact scaled_isExact hlibrary hscale hwhole
      | exhaustive => exact exhaustive_isExact library padding reach scale (hside rfl)
    rcases hmethod with ⟨o', ho', hexact'⟩
    have hworker := hexact'.workerOf_eq hexact hunique
    refine ⟨o', ho', hworker, ?_, hexact'.total_eq hexact, hexact'.status_eq hexact, ?_⟩
    · rw [hexact'.idle, hexact.idle, hworker]
    · rw [hworker]

/-- Two workers and three jobs with one cheapest pairing. -/
def settledCosts : Grid ℚ where
  height := 2
  width := 3
  cells := #v[4, 1 / 2, 3, 2, 0, 5]

theorem settledCosts_unique (M M' : Finset (Nat × Nat)) (h : IsCheapest settledCosts M)
    (h' : IsCheapest settledCosts M') : M = M' := by
  have hpair : ∀ M, IsCheapest settledCosts M → M = {(0, 1), (1, 0)} := by
    intro M h
    have hsat : Saturating 2 3 {(0, 1), (1, 0)} :=
      ⟨by decide, by decide, by decide, by decide⟩
    have hle := h.least _ hsat
    rcases h.saturating.exists_two_jobs (by decide) with ⟨j, k, hnodup, rfl⟩
    -- Of the six choices only one costs no more.
    have hall : ∀ j k : Fin 3, [j.val, k.val].Nodup →
        settledCosts.costOf (Matching.jobPairs [j.val, k.val]).toFinset ≤
          settledCosts.costOf {(0, 1), (1, 0)} →
        (Matching.jobPairs [j.val, k.val]).toFinset = {(0, 1), (1, 0)} := by
      decide +kernel
    exact hall j k hnodup hle
  rw [hpair M h, hpair M' h']

theorem methods_agree_settledCosts : (10 : ℚ) < 20 ∧ (∀ w j, settledCosts.get w j < 20) ∧
    (0 : ℚ) < 2 ∧ 2 ≤ Exhaustive.maxSide ∧ Library.exhaustive.IsExact ∧
    (∀ M M', IsCheapest settledCosts M → IsCheapest settledCosts M' → M = M') ∧
    (∀ w j, ∃ k : ℤ, settledCosts.get w j * 2 = k) ∧
    (∃ o o', Method.padded.solvePrepared (.rational .exhaustive) settledCosts (.exact 10 20 2) =
        .ok o ∧
      Method.exhaustive.solvePrepared (.rational .exhaustive) settledCosts (.exact 10 20 2) =
        .ok o' ∧
      o.total = o'.total ∧ o.status = o'.status) ∧
    ∃ o, Method.padded.solvePrepared (.rational .exhaustive) settledCosts (.exact 10 20 2) = .ok o ∧
      ∀ method : Method, (method = .exhaustive → 2 ≤ Exhaustive.maxSide) → ∃ o',
        method.solvePrepared (.rational .exhaustive) settledCosts (.exact 10 20 2) = .ok o' ∧
        o'.workerOf = o.workerOf ∧ o'.idle = o.idle ∧ o'.total = o.total ∧
        o'.status = o.status ∧ o'.workerOf.pairs = o.workerOf.pairs := by
  have hpad : (10 : ℚ) < 20 := by decide +kernel
  have hcost : ∀ w j, settledCosts.get w j < 20 := by decide +kernel
  have hscale : (0 : ℚ) < 2 := by decide +kernel
  have hside : 2 ≤ Exhaustive.maxSide := by decide
  have hrounded : ∀ w j,
      settledCosts.get w j * 2 = (nearestInt (settledCosts.get w j * 2) : ℚ) := by
    decide +kernel
  have hagree := methods_agree .exhaustive settledCosts 10 20 2 hpad hcost hscale
  exact ⟨hpad, hcost, hscale, hside, Library.exhaustive_isExact, settledCosts_unique,
    fun w j => ⟨_, hrounded w j⟩, hagree.1 hside,
    hagree.2 Library.exhaustive_isExact settledCosts_unique fun w j => ⟨_, hrounded w j⟩⟩

end Roster
