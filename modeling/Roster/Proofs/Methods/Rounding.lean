import Mathlib.Algebra.Order.BigOperators.Group.Finset
import Mathlib.Algebra.Order.Field.Basic
import Mathlib.Tactic.FieldSimp
import Mathlib.Tactic.Linarith
import Roster.Proofs.Methods.Agreement

/-!
# What Rounding Loses

The library that knows whole numbers only is given scaled costs, and scaling seldom makes a
cost whole. Its matching is cheapest at rounded costs then, and the question is by how much
it can miss.

A cell is rounded by at most one half, up or down. So a pairing that saturates the table, which
has as many pairs as the smaller side has members, is moved by at most half of that number. Two
pairings are compared, the one that was found and a cheapest one, so they may be moved apart by
all of that number, which divided by the scale is what can be lost. Nothing is lost where the
costs of pairings are farther apart.

Of the library no more is asked than a cheapest answer for the one square that it is given, all
numbers of which have a place in its range.

## Main definitions

* `Tools.ranged`: The tools for rational numbers, with a library of limited range.

## Theorems

* `abs_nearestInt_sub_le`: A number is rounded by at most one half.
* `Grid.abs_costOf_rounded_le`: A saturating pairing is moved by at most half of its pairs.
* `costOf_le_of_rounded`: A pairing that is cheapest at rounded costs.
* `scaled_rounding_loss`: What the library's matching costs.
-/

namespace Roster

/-- The tools for rational numbers, with a library that takes only some whole numbers. -/
def Tools.ranged (library : Library ℚ) (fits : ℤ → Bool) : Tools ℚ :=
  { Tools.rational library with
    scaled := fun factor cost => (some (nearestInt (cost * factor))).filter fits }

/-! ### One number -/

theorem abs_roundHalfEven_sub_le (top : Nat) {bottom : Nat} (h : 0 < bottom) :
    |(roundHalfEven top bottom : ℚ) - top / bottom| ≤ 1 / 2 := by
  have hpos : (0 : ℚ) < bottom := Nat.cast_pos.mpr h
  have hclose := roundHalfEven_close top h
  have hle : (2 * (bottom * roundHalfEven top bottom) : ℚ) ≤ 2 * top + bottom := by
    exact_mod_cast hclose.1
  have hge : (2 * top : ℚ) ≤ 2 * (bottom * roundHalfEven top bottom) + bottom := by
    exact_mod_cast hclose.2
  have hquot : (top / bottom : ℚ) * bottom = top := div_mul_cancel₀ _ hpos.ne'
  -- Both bounds are read in units of the denominator.
  rw [abs_le]
  constructor
  · refine le_of_mul_le_mul_right ?_ hpos
    linarith
  · refine le_of_mul_le_mul_right ?_ hpos
    linarith

theorem abs_nearestInt_sub_le (x : ℚ) : |(nearestInt x : ℚ) - x| ≤ 1 / 2 := by
  have hround := abs_roundHalfEven_sub_le x.num.natAbs x.den_pos
  rw [nearestInt, roundSigned]
  by_cases hx : x < 0
  · -- Below zero the magnitude is rounded, and the sign is put back.
    have hnum : ((x.num.natAbs : ℤ) : ℚ) = -x.num := by
      exact_mod_cast Int.ofNat_natAbs_of_nonpos (Rat.num_neg.mpr hx).le
    have habs : ((x.num.natAbs : ℚ) / x.den) = -x := by
      rw [← Int.cast_natCast, hnum, neg_div, Rat.num_div_den]
    rw [if_pos (decide_eq_true hx)]
    rw [habs, sub_neg_eq_add, ← abs_neg] at hround
    push_cast
    rwa [neg_add'] at hround
  · have hnum : ((x.num.natAbs : ℤ) : ℚ) = x.num := by
      exact_mod_cast Int.natAbs_of_nonneg (Rat.num_nonneg.mpr (le_of_not_gt hx))
    have habs : ((x.num.natAbs : ℚ) / x.den) = x := by
      rw [← Int.cast_natCast, hnum, Rat.num_div_den]
    rw [if_neg (by rw [decide_eq_true_iff]; exact hx)]
    rw [habs] at hround
    exact_mod_cast hround

/-! ### Pairings -/

section Pairings

variable {costs : Grid ℚ} {scale : ℚ} {M M' : Finset (Nat × Nat)}

variable (scale) in
/-- Rounding moves the cost of a saturating pairing by at most one half for each pair. -/
theorem Grid.abs_costOf_rounded_le (h : Saturating costs.height costs.width M) :
    |((costs.rounded scale).costOf M : ℚ) - costs.costOf M * scale| ≤
      (min costs.height costs.width : ℕ) / 2 := by
  have hsum : ((costs.rounded scale).costOf M : ℚ) - costs.costOf M * scale =
      ∑ x ∈ M, ((nearestInt (costs.costAt x.1 x.2 * scale) : ℚ) -
        costs.costAt x.1 x.2 * scale) := by
    rw [Finset.sum_sub_distrib, Grid.costOf, Grid.costOf, Int.cast_sum, Finset.sum_mul]
    simp only [costs.costAt_rounded]
  rw [hsum]
  calc |∑ x ∈ M, ((nearestInt (costs.costAt x.1 x.2 * scale) : ℚ) -
          costs.costAt x.1 x.2 * scale)|
      ≤ ∑ x ∈ M, |(nearestInt (costs.costAt x.1 x.2 * scale) : ℚ) -
          costs.costAt x.1 x.2 * scale| := Finset.abs_sum_le_sum_abs _ _
    _ ≤ M.card • (1 / 2 : ℚ) := Finset.sum_le_card_nsmul _ _ _ fun x _ => abs_nearestInt_sub_le _
    _ = (min costs.height costs.width : ℕ) / 2 := by rw [h.card, nsmul_eq_mul, mul_one_div]

/-- A pairing that is cheapest at rounded costs costs little more than any other. -/
theorem costOf_le_of_rounded (hscale : 0 < scale) (h : IsCheapest (costs.rounded scale) M)
    (hM' : Saturating costs.height costs.width M') :
    costs.costOf M ≤ costs.costOf M' + (min costs.height costs.width : ℕ) / scale := by
  have hle : ((costs.rounded scale).costOf M : ℚ) ≤ (costs.rounded scale).costOf M' := by
    exact_mod_cast h.least M' hM'
  have hM : Saturating costs.height costs.width M := h.saturating
  have hfound := abs_le.mp (Grid.abs_costOf_rounded_le scale hM)
  have hother := abs_le.mp (Grid.abs_costOf_rounded_le scale hM')
  -- Both pairings are moved by half of their pairs, one down and one up.
  refine le_of_mul_le_mul_right ?_ hscale
  rw [add_mul, div_mul_cancel₀ _ hscale.ne']
  linarith [hfound.1, hother.2]

/-- A pairing that misses the least cost by no more than `gap` does not miss it at all, if all
    that do miss it by more. -/
theorem isCheapest_of_gap {gap : ℚ} (hM : Saturating costs.height costs.width M)
    (hle : ∀ M', Saturating costs.height costs.width M' → costs.costOf M ≤ costs.costOf M' + gap)
    (hgap : ∀ M' M'', IsCheapest costs M' → Saturating costs.height costs.width M'' →
      ¬ IsCheapest costs M'' → costs.costOf M' + gap < costs.costOf M'') :
    IsCheapest costs M := by
  by_contra hnot
  have hmin := (Exhaustive.isCheapest_matching costs).2
  exact absurd (hle _ hmin.saturating) (not_le_of_gt (hgap _ M hmin hM hnot))

end Pairings

/-- The library's matching at scaled and rounded costs matches all of the smaller side and
    costs at most one unit of the scale more for each pair than any other such matching. So it
    is a cheapest one if all that are not cost still more. -/
theorem scaled_rounding_loss (library : Library ℚ) (fits : ℤ → Bool) (costs : Grid ℚ)
    (padding reach scale : ℚ) (hscale : 0 < scale)
    (hfits : ∀ w j, fits (nearestInt (costs.get w j * scale)) = true)
    (hlibrary : library.Answers (Square.ofGrid (costs.rounded scale))) :
    ∃ o, Method.scaled.solvePrepared (.ranged library fits) costs (.exact padding reach scale) =
        .ok o ∧
      o.workerOf.Saturates costs.height costs.width ∧
      o.total = costs.costOf o.workerOf.pairs.toFinset ∧
      (∀ M, Saturating costs.height costs.width M →
        o.total ≤ costs.costOf M + (min costs.height costs.width : ℕ) / scale) ∧
      ((∀ M M', IsCheapest costs M → Saturating costs.height costs.width M' →
          ¬ IsCheapest costs M' →
          costs.costOf M + (min costs.height costs.width : ℕ) / scale < costs.costOf M') →
        IsCheapest costs o.workerOf.pairs.toFinset) := by
  have hscaled : ∀ w j, (Tools.ranged library fits).scaled scale (costs.get w j) =
      some (nearestInt (costs.get w j * scale)) :=
    fun w j => Option.filter_eq_some_iff.mpr ⟨rfl, hfits w j⟩
  rcases exists_scaledMatching hscaled fun _ _ => hlibrary with ⟨matching, hmatching, hsat, hmin⟩
  have hle : ∀ M, Saturating costs.height costs.width M →
      costs.costOf matching.pairs.toFinset ≤
        costs.costOf M + (min costs.height costs.width : ℕ) / scale :=
    fun M hM => costOf_le_of_rounded hscale hmin hM
  have hsolve : Method.scaled.solvePrepared (.ranged library fits) costs
      (.exact padding reach scale) =
        Outcome.ofMatching .ofOrder costs matching [] [] := by
    rw [Method.solvePrepared, Settings.exact, hmatching]
    rfl
  exact ⟨_, hsolve.trans (hsat.outcome_eq [] []), hsat, rfl, hle, isCheapest_of_gap hsat.pairs hle⟩

/-- Costs of which none is whole at a scale of one and a half. -/
def roughCosts : Grid ℚ where
  height := 2
  width := 3
  cells := #v[1 / 3, 9 / 2, 7, 3, 1 / 2, 9]

/-- Whether a whole number has a place in a signed word. -/
def fitsWord (k : ℤ) : Bool := decide (-9223372036854775808 ≤ k ∧ k < 9223372036854775808)

theorem roughCosts_gap (M M' : Finset (Nat × Nat)) (h : IsCheapest roughCosts M)
    (hM' : Saturating 2 3 M') (hnot : ¬ IsCheapest roughCosts M') :
    roughCosts.costOf M + (2 : ℕ) / (3 / 2) < roughCosts.costOf M' := by
  have hdiag : Saturating 2 3 {(0, 0), (1, 1)} := ⟨by decide, by decide, by decide, by decide⟩
  have hfive : roughCosts.costOf {(0, 0), (1, 1)} = 5 / 6 := by decide +kernel
  have hsplit : ∀ M', Saturating 2 3 M' → M' = {(0, 0), (1, 1)} ∨ 7 < roughCosts.costOf M' := by
    intro M' hM'
    rcases hM'.exists_two_jobs (by decide) with ⟨j, k, hnodup, rfl⟩
    have hall : ∀ j k : Fin 3, [j.val, k.val].Nodup →
        (Matching.jobPairs [j.val, k.val]).toFinset = {(0, 0), (1, 1)} ∨
          7 < roughCosts.costOf (Matching.jobPairs [j.val, k.val]).toFinset := by
      decide +kernel
    exact hall j k hnodup
  have hleast := h.least _ hdiag
  rcases hsplit M' hM' with rfl | hfar
  · -- This is the cheapest pairing.
    refine absurd ⟨hdiag, fun M'' hM'' => ?_⟩ hnot
    rcases hsplit M'' hM'' with rfl | hfar
    · exact le_refl _
    · rw [hfive]
      linarith
  · rw [hfive] at hleast
    norm_num
    linarith

theorem scaled_rounding_loss_roughCosts : (0 : ℚ) < 3 / 2 ∧
    (∀ w j, fitsWord (nearestInt (roughCosts.get w j * (3 / 2))) = true) ∧
    Library.exhaustive.Answers (Square.ofGrid (roughCosts.rounded (3 / 2))) ∧
    ∃ o, Method.scaled.solvePrepared (.ranged .exhaustive fitsWord) roughCosts
        (.exact 10 20 (3 / 2)) = .ok o ∧
      o.workerOf.Saturates 2 3 ∧
      o.total = roughCosts.costOf o.workerOf.pairs.toFinset ∧
      (∀ M, Saturating 2 3 M → o.total ≤ roughCosts.costOf M + (2 : ℕ) / (3 / 2)) ∧
      IsCheapest roughCosts o.workerOf.pairs.toFinset := by
  have hscale : (0 : ℚ) < 3 / 2 := by decide +kernel
  have hfits : ∀ w j, fitsWord (nearestInt (roughCosts.get w j * (3 / 2))) = true := by
    decide +kernel
  have hlibrary : Library.exhaustive.Answers (Square.ofGrid (roughCosts.rounded (3 / 2))) :=
    Reference.exists_mates (by decide) rfl
  rcases scaled_rounding_loss .exhaustive fitsWord roughCosts 10 20 (3 / 2) hscale hfits hlibrary
    with ⟨o, ho, hsat, htotal, hle, hcheapest⟩
  exact ⟨hscale, hfits, hlibrary, o, ho, hsat, htotal, hle, hcheapest roughCosts_gap⟩

end Roster
