import Mathlib.Algebra.BigOperators.Ring.Finset
import Roster.Proofs.Exhaustive.Optimality
import Roster.Proofs.Padded.Certificate
import Roster.Proofs.Pairing.Square

/-!
# The Methods With Exact Numbers

Each method by itself, on rational costs: it answers, and it answers with a cheapest
matching. What that says of the outcome is the same for all of them, so it is stated once;
a method has to show no more than a matching whose pairs are cheapest.

Two of the methods ask a library, of which nothing is known but what it promises. One is
asked about the costs themselves. The other is asked about whole numbers on a square, so
what it promises has to be carried back: from the square to the table, which loses nothing,
and from whole numbers to costs, which loses nothing only if no cost had to be rounded.

## Main definitions

* `nearestInt`: The whole number nearest to a rational one.
* `Grid.rounded`: Scaled and rounded costs.
* `Tools.rational`: The tools for rational numbers, with some library.
* `Settings.exact`: Settings that stand for given numbers.
* `Library.IsExact`: What a library promises.
* `Library.Answers`: Whether a library has an answer for one square.
* `Outcome.IsExact`: What an outcome with a cheapest matching says.

## Theorems

* `padded_isExact`: The padded search.
* `exhaustive_isExact`: The exhaustive search.
* `exact_isExact`: A library on the costs.
* `exists_scaledMatching`: A library on scaled and rounded costs finds what is cheapest there.
* `scaled_isExact`: If nothing had to be rounded, that is cheapest.
* `Outcome.IsExact.workerOf_eq`: If only one pairing is cheapest, matchings are the same.
-/

namespace Roster

/-- The whole number nearest to a rational one; a tie goes to the even neighbour. -/
def nearestInt (x : ℚ) : ℤ := roundSigned (decide (x < 0)) x.num.natAbs x.den

theorem roundHalfEven_one (n : Nat) : roundHalfEven n 1 = n := by
  rw [roundHalfEven, Nat.mod_one, Nat.div_one, if_pos (by omega)]

/-- A whole number is the nearest to itself. -/
theorem nearestInt_intCast (k : ℤ) : nearestInt k = k := by
  rw [nearestInt, roundSigned, Rat.num_intCast, Rat.den_intCast, roundHalfEven_one]
  -- Rounding is done without the sign, which is put back behind it.
  by_cases hk : k < 0
  · rw [if_pos (decide_eq_true (Int.cast_lt_zero.mpr hk))]
    omega
  · rw [if_neg (by rw [decide_eq_true_iff, Int.cast_lt_zero]; exact hk)]
    omega

/-- Costs that are scaled and rounded. -/
def Grid.rounded (costs : Grid ℚ) (scale : ℚ) : Grid ℤ :=
  costs.map fun x => nearestInt (x * scale)

theorem Grid.costAt_rounded (costs : Grid ℚ) (scale : ℚ) (w j : Nat) :
    (costs.rounded scale).costAt w j = nearestInt (costs.costAt w j * scale) := by
  by_cases h : w < costs.height ∧ j < costs.width
  · exact Grid.costAt_map _ h.1 h.2
  · rw [costs.costAt_eq_zero h, zero_mul]
    exact Grid.costAt_eq_zero _ h

/-- The tools for rational numbers, with some library. Every total can be the least one. -/
def Tools.rational (library : Library ℚ) : Tools ℚ where
  toLibrary := library
  arithmetic := .ofOrder
  bounded := fun _ => true
  scaled := fun factor cost => some (nearestInt (cost * factor))

/-- Settings that stand for given numbers. -/
def Settings.exact {α : Type} (padding reach scale : α) : Settings α where
  padding := .ok padding
  reach := .ok reach
  scale := .ok scale

/-- What a library promises: cheapest pairs of every table, and the columns of a cheapest
    pairing of every square of whole numbers. -/
structure Library.IsExact (library : Library ℚ) : Prop where
  pairs : ∀ costs : Grid ℚ, costs.height ≠ 0 → costs.width ≠ 0 →
    ∃ pairs, library.pairs costs = .ok pairs ∧ IsCheapest costs pairs.toFinset
  mates : ∀ square : Grid ℤ, square.height ≠ 0 → square.height = square.width →
    ∃ mates, library.mates square = .ok mates ∧
      IsCheapest square (Matching.jobPairs mates).toFinset

/-- Whether a library gives the columns of a cheapest pairing of this square. -/
def Library.Answers {α : Type} (library : Library α) (square : Grid ℤ) : Prop :=
  ∃ mates, library.mates square = .ok mates ∧
    IsCheapest square (Matching.jobPairs mates).toFinset

/-- What an outcome with a cheapest matching says. -/
structure Outcome.IsExact (costs : Grid ℚ) (o : Outcome ℚ) : Prop where
  saturates : o.workerOf.Saturates costs.height costs.width
  cheapest : IsCheapest costs o.workerOf.pairs.toFinset
  total : o.total = costs.costOf o.workerOf.pairs.toFinset
  idle : o.idle = o.workerOf.idle costs.height
  status : o.status = Status.ofSize costs.height costs.width

namespace Outcome.IsExact

variable {costs : Grid ℚ} {o o' : Outcome ℚ}

/-- All cheapest matchings cost the same. -/
theorem total_eq (h : o.IsExact costs) (h' : o'.IsExact costs) : o.total = o'.total := by
  rw [h.total, h'.total]
  exact le_antisymm (h.cheapest.least _ h'.cheapest.saturating)
    (h'.cheapest.least _ h.cheapest.saturating)

theorem status_eq (h : o.IsExact costs) (h' : o'.IsExact costs) : o.status = o'.status := by
  rw [h.status, h'.status]

/-- If only one pairing is cheapest, the matchings are the same. -/
theorem workerOf_eq (h : o.IsExact costs) (h' : o'.IsExact costs)
    (hunique : ∀ M M', IsCheapest costs M → IsCheapest costs M' → M = M') :
    o.workerOf = o'.workerOf :=
  Matching.ext_pairs (h.saturates.length.trans h'.saturates.length.symm) h.saturates.entry
    h'.saturates.entry (hunique _ _ h.cheapest h'.cheapest)

end Outcome.IsExact

section Methods

variable {costs : Grid ℚ} {library : Library ℚ} {padding reach scale : ℚ}

/-- The outcome of a cheapest matching, however it was found. -/
theorem ofMatching_isExact {matching : Matching}
    (hsat : matching.Saturates costs.height costs.width)
    (hmin : IsCheapest costs matching.pairs.toFinset) (rowPotentials colPotentials : List ℚ) :
    ∃ o, Outcome.ofMatching .ofOrder costs matching rowPotentials colPotentials = .ok o ∧
      o.IsExact costs :=
  ⟨_, hsat.outcome_eq rowPotentials colPotentials, hsat, hmin, rfl, rfl, rfl⟩

/-- If there is nothing to match, the open matching is a cheapest one. -/
theorem unassigned_isExact (hempty : costs.height = 0 ∨ costs.width = 0) :
    ∃ o, Outcome.ofMatching .ofOrder costs (Matching.unassigned costs.width) [] [] = .ok o ∧
      o.IsExact costs := by
  exact ofMatching_isExact (Matching.saturates_unassigned hempty)
    (Matching.isCheapest_unassigned hempty) [] []

variable (library scale) in
/-- The padded search answers with a cheapest matching. -/
theorem padded_isExact (hpad : padding < reach) (hcost : ∀ w j, costs.get w j < reach) :
    ∃ o, Method.padded.solvePrepared (.rational library) costs (.exact padding reach scale) =
      .ok o ∧ o.IsExact costs := by
  rw [Method.solvePrepared]
  by_cases hempty : costs.height = 0 ∨ costs.width = 0
  · rw [searchPrepared, if_pos hempty, Padded.solve, if_pos hempty]
    exact unassigned_isExact hempty
  · rw [searchPrepared_own _ _ hempty]
    rw [not_or] at hempty
    have hcell : ∀ w j, w < costs.height → j < costs.width → costs.costAt w j < reach :=
      fun w j hw hj => costs.costAt_of_lt hw hj ▸ hcost ⟨w, hw⟩ ⟨j, hj⟩
    -- The run ends balanced, and the certificate in it makes the matching a cheapest one.
    rcases Padded.exists_outcome hempty.1 hempty.2 hcell hpad with ⟨s, b, ho⟩
    exact ⟨_, ho, Padded.saturates_workerOf rfl b.toSettled, Padded.isCheapest b, rfl, rfl, rfl⟩

variable (library padding reach scale) in
/-- The exhaustive search answers with a cheapest matching, if it does not refuse. -/
theorem exhaustive_isExact (hside : min costs.height costs.width ≤ Exhaustive.maxSide) :
    ∃ o, Method.exhaustive.solvePrepared (.rational library) costs (.exact padding reach scale) =
      .ok o ∧ o.IsExact costs := by
  rw [Method.solvePrepared, if_neg (Nat.not_lt.mpr hside)]
  rcases Exhaustive.isCheapest_matching costs with ⟨hsat, hmin⟩
  exact ofMatching_isExact hsat hmin [] []

/-- A library on the costs answers with a cheapest matching. -/
theorem exact_isExact (hlibrary : library.IsExact) :
    ∃ o, Method.exact.solvePrepared (.rational library) costs (.exact padding reach scale) = .ok o ∧
      o.IsExact costs := by
  rw [Method.solvePrepared]
  by_cases hempty : costs.height = 0 ∨ costs.width = 0
  · rw [Library.matching, if_pos (costs.isEmpty_iff.mpr hempty)]
    exact unassigned_isExact hempty
  · have hcells : ¬ costs.isEmpty = true := fun h => hempty (costs.isEmpty_iff.mp h)
    rw [not_or] at hempty
    rcases hlibrary.pairs costs hempty.1 hempty.2 with ⟨pairs, hpairs, hmin⟩
    -- Cheapest pairs lie inside the table, so every one of them has a place in the matching.
    have hmatching : (Tools.rational library).matching costs =
        .ok (Matching.place costs.width pairs) :=
      Library.matching_of_pairs hcells hpairs fun x hx =>
        (hmin.saturating.inside x (List.mem_toFinset.mpr hx)).2
    rcases Matching.saturates_place hmin.saturating with ⟨hsat, heq⟩
    rw [hmatching]
    exact ofMatching_isExact hsat (heq ▸ hmin) [] []

/-! ### Scaled costs -/

/-- A library on scaled and rounded costs finds a matching that is cheapest at these. -/
theorem exists_scaledMatching {tools : Tools ℚ}
    (hscaled : ∀ w j, tools.scaled scale (costs.get w j) =
      some (nearestInt (costs.get w j * scale)))
    (hlibrary : costs.height ≠ 0 → costs.width ≠ 0 →
      tools.Answers (Square.ofGrid (costs.rounded scale))) :
    ∃ matching, tools.scaledMatching costs (.ok scale) = .ok matching ∧
      matching.Saturates costs.height costs.width ∧
      IsCheapest (costs.rounded scale) matching.pairs.toFinset := by
  by_cases hempty : costs.height = 0 ∨ costs.width = 0
  · refine ⟨_, if_pos (costs.isEmpty_iff.mpr hempty), Matching.saturates_unassigned hempty, ?_⟩
    exact Matching.isCheapest_unassigned (g := costs.rounded scale) hempty
  · have hcells : ¬ costs.isEmpty = true := fun h => hempty (costs.isEmpty_iff.mp h)
    rw [not_or] at hempty
    -- From the square to the whole costs.
    rcases hlibrary hempty.1 hempty.2 with ⟨mates, hmates, hmin⟩
    -- Of the mates in the square those inside the table are kept. The others stand on padding.
    have hkept : (Square.kept costs.height costs.width mates).toFinset =
        (Matching.jobPairs mates).toFinset.filter
          fun x => x.1 < costs.height ∧ x.2 < costs.width := by
      rw [Square.kept, List.toFinset_filter]
      simp only [decide_eq_true_eq]
    have hcheapest : IsCheapest (costs.rounded scale)
        (Square.kept costs.height costs.width mates).toFinset := hkept ▸ hmin.of_square
    rcases Matching.saturates_place hcheapest.saturating with ⟨hsat, heq⟩
    refine ⟨_, ?_, hsat, heq ▸ hcheapest⟩
    have hwhole : Square.wholeCosts (tools.scaled scale) costs = .ok (costs.rounded scale) :=
      Square.wholeCosts_of_some hscaled
    rw [Tools.scaledMatching, if_neg hcells]
    simp only [bind, Except.bind, hwhole, hmates]
    rfl

/-- If no cost has to be rounded, cheapest pairs of the whole costs are cheapest pairs of the
    costs. -/
theorem isCheapest_of_rounded (hwhole : ∀ w j, ∃ k : ℤ, costs.get w j * scale = k)
    (hscale : 0 < scale) {M : Finset (Nat × Nat)} (h : IsCheapest (costs.rounded scale) M) :
    IsCheapest costs M := by
  have hcell : ∀ w j, (((costs.rounded scale).costAt w j : ℤ) : ℚ) = costs.costAt w j * scale := by
    intro w j
    rw [costs.costAt_rounded]
    by_cases hin : w < costs.height ∧ j < costs.width
    · rcases hwhole ⟨w, hin.1⟩ ⟨j, hin.2⟩ with ⟨k, hk⟩
      rw [costs.costAt_of_lt hin.1 hin.2, hk, nearestInt_intCast]
    · rw [costs.costAt_eq_zero hin, zero_mul]
      rfl
  -- All pairings cost as much more as each cell does, so their order stays.
  have hcost : ∀ M, (((costs.rounded scale).costOf M : ℤ) : ℚ) = costs.costOf M * scale := by
    intro M
    rw [Grid.costOf, Int.cast_sum, Grid.costOf, Finset.sum_mul]
    exact Finset.sum_congr rfl fun x _ => hcell x.1 x.2
  refine ⟨h.saturating, fun M' hM' => ?_⟩
  have hle := Int.cast_le (R := ℚ).mpr (h.least M' hM')
  rw [hcost, hcost] at hle
  exact le_of_mul_le_mul_right hle hscale

/-- A library on scaled costs answers with a cheapest matching, if no cost had to be
    rounded. -/
theorem scaled_isExact (hlibrary : library.IsExact) (hscale : 0 < scale)
    (hwhole : ∀ w j, ∃ k : ℤ, costs.get w j * scale = k) :
    ∃ o, Method.scaled.solvePrepared (.rational library) costs (.exact padding reach scale) =
      .ok o ∧ o.IsExact costs := by
  have hsquare : costs.height ≠ 0 → (Square.ofGrid (costs.rounded scale)).height ≠ 0 := by
    intro hn
    change max costs.height costs.width ≠ 0
    omega
  have hscaled : ∀ w j, (Tools.rational library).scaled scale (costs.get w j) =
      some (nearestInt (costs.get w j * scale)) := fun _ _ => rfl
  rcases exists_scaledMatching hscaled fun hn _ => hlibrary.mates _ (hsquare hn) rfl
    with ⟨matching, hmatching, hsat, hmin⟩
  rw [Method.solvePrepared, Settings.exact, hmatching]
  exact ofMatching_isExact hsat (isCheapest_of_rounded hwhole hscale hmin) [] []

end Methods

end Roster
