import Roster.Cost.Labelled
import Roster.Proofs.Fallible
import Roster.Proofs.Number.Order
import Roster.Solver.Basic

/-!
# Accepted Matrices

The check of a matrix goes over all cells three times and fails at the first offending one.
It passes exactly if every cell on its own is finite, not negative and below the sentinel,
so nothing but the cells themselves and the sentinel decides about a matrix.

## Main definitions

* `Grid.Fits`: The costs of a table meet the preconditions.

## Theorems

* `Grid.findCell?_eq_none_iff`: No cell is found if none has the property.
* `Cost.check_eq_ok_iff`: A matrix passes the check if and only if all of its costs fit.
* `Cost.nonneg_of_check`: What a check tells of costs, whatever the sentinel is.
* `Grid.Fits.mono`: Costs that fit below one sentinel fit below a greater one.
* `CostInput.fits_of_prepare`: An input that passes the check has costs that fit.
-/

namespace Roster

namespace Grid

variable {α : Type} {p : α → Bool} {g : Grid α}

theorem findCell?_eq_none_iff : g.findCell? p = none ↔ ∀ x ∈ g.toList, p x = false := by
  unfold findCell?
  cases h : g.cells.toList.findIdx? p with
  | none => simpa [toList] using h
  | some k =>
    rcases List.findIdx?_eq_some_iff_getElem.mp h with ⟨hk, hp, _⟩
    have hcell : k < g.height * g.width := by simpa using hk
    have hmem : g.cells.toList[k] ∈ g.toList := List.getElem_mem hk
    constructor
    · intro hnone
      simp [hcell] at hnone
    · intro hall
      rw [hall _ hmem] at hp
      exact absurd hp Bool.false_ne_true

theorem toList_eq_nil_iff (g : Grid α) : g.toList = [] ↔ g.isEmpty = true := by
  rw [← List.length_eq_zero_iff]
  simp [toList, isEmpty]

/-- Every cost is finite, not negative and below a bound. -/
def Fits (costs : Grid Float) (bound : Float) : Prop :=
  ∀ x ∈ costs.toList, x.isFinite = true ∧ 0.0 ≤ x ∧ x < bound

end Grid

namespace Cost

variable {costs : Grid Float} {sentinel : Number} {bound : Float}

theorem refuse_eq_ok_iff {p : Float → Bool} {cause : Nat → Nat → Float → MatrixFault} :
    refuse costs p cause = .ok () ↔ ∀ x ∈ costs.toList, p x = false := by
  rw [← Grid.findCell?_eq_none_iff]
  unfold refuse
  cases costs.findCell? p with
  | none => simp
  | some found => simp

theorem checkCells_eq_ok_iff (hbound : sentinel.toDouble? = some bound) :
    checkCells costs sentinel = .ok () ↔
      ∀ x ∈ costs.toList, x.isFinite = true ∧ ¬ x < 0.0 ∧ ¬ bound ≤ x := by
  unfold checkCells
  rw [hbound]
  simp only [bind_eq_ok_iff, Unique.exists_iff, PUnit.default_eq_unit, refuse_eq_ok_iff,
    Bool.not_eq_false', decide_eq_false_iff_not]
  -- Three passes over the cells say as much as one pass with all three questions.
  constructor
  · intro h x hx
    exact ⟨h.1 x hx, h.2.1 x hx, h.2.2 x hx⟩
  · intro h
    exact ⟨fun x hx => (h x hx).1, fun x hx => (h x hx).2.1, fun x hx => (h x hx).2.2⟩

/-- A matrix has its own size, so only its cells are left to check, if there are any. -/
theorem check_eq : check costs costs.height costs.width sentinel =
    if costs.isEmpty then .ok () else checkCells costs sentinel := by
  have hdeclared : checkDeclared costs.height costs.width = .ok () := by
    unfold checkDeclared
    rw [if_neg (by omega)]
  unfold check
  rw [hdeclared]
  simp only [bind, Except.bind, ne_eq, not_true_eq_false, or_self, if_false]
  rfl

/-- Only a matrix of the declared size passes the check. -/
theorem size_of_check {n m : Int} (h : check costs n m sentinel = .ok ()) :
    (costs.height : Int) = n ∧ (costs.width : Int) = m := by
  simp only [check, bind_eq_ok_iff, guarded_eq_ok_iff] at h
  rcases h with ⟨_, _, hsize, _⟩
  omega

/-- A matrix passes the check if and only if each of its costs fits. -/
theorem check_eq_ok_iff (hbound : sentinel.toDouble? = some bound)
    (hnumber : (Binary64.key? bound).isSome) :
    check costs costs.height costs.width sentinel = .ok () ↔ costs.Fits bound := by
  have hzero : (Binary64.key? 0.0).isSome := by decide
  rw [check_eq]
  by_cases hempty : costs.isEmpty = true
  · simp [hempty, Grid.Fits, costs.toList_eq_nil_iff.mpr hempty]
  · rw [if_neg hempty, checkCells_eq_ok_iff hbound]
    refine forall₂_congr fun x _ => and_congr_right fun hx => ?_
    have hx := Binary64.isSome_key?_of_isFinite hx
    rw [Binary64.not_lt_iff hx hzero, Binary64.not_le_iff hnumber hx]

/-- Costs that fit pass the check, whatever the sentinel is. -/
theorem check_of_fits (hbound : sentinel.toDouble? = some bound) (h : costs.Fits bound) :
    check costs costs.height costs.width sentinel = .ok () := by
  by_cases hnumber : (Binary64.key? bound).isSome
  · exact (check_eq_ok_iff hbound hnumber).mpr h
  · -- Nothing is below a sentinel that is no number, so there are no costs.
    have hnil : costs.toList = [] := by
      rw [List.eq_nil_iff_forall_not_mem]
      intro x hx
      rcases Binary64.lt_iff.mp (h x hx).2.2 with ⟨_, b, _, hb, _⟩
      exact hnumber (by simp [hb])
    rw [check_eq, if_pos (costs.toList_eq_nil_iff.mp hnil)]

end Cost

/-- Costs that fit below one bound fit below a greater one. -/
theorem Grid.Fits.mono {costs : Grid Float} {bound bound' : Float} (h : costs.Fits bound)
    (hle : bound ≤ bound') : costs.Fits bound' :=
  fun x hx => ⟨(h x hx).1, (h x hx).2.1, Binary64.lt_of_lt_of_le (h x hx).2.2 hle⟩

namespace CostInput

variable {n m : Int} {input : CostInput} {config : Config} {costs : Grid Float}

/-- A configuration that asks for checks lets a table pass with its declared size. -/
theorem of_prepare (hvalid : config.validates = true)
    (h : prepare (some (n, m)) input config = .ok costs) :
    input.toGrid (some n) (some m) = .ok costs ∧
      Cost.check costs n m config.paddingSentinel = .ok () := by
  unfold prepare at h
  simp only [bind_eq_ok_iff, Option.map_some, hvalid, if_true, Option.getD_some] at h
  rcases h with ⟨_, _, found, hgrid, _, hcheck, hfound⟩
  rcases Except.ok.inj hfound with rfl
  exact ⟨hgrid, hcheck⟩

/-- An input that passes the checks has the declared size, and its costs fit. -/
theorem fits_of_prepare {bound : Float} (hvalid : config.validates = true)
    (hbound : config.paddingSentinel.toDouble? = some bound)
    (hnumber : (Binary64.key? bound).isSome)
    (h : prepare (some (n, m)) input config = .ok costs) :
    (costs.height : Int) = n ∧ (costs.width : Int) = m ∧ costs.Fits bound := by
  have hcheck := (of_prepare hvalid h).2
  rcases Cost.size_of_check hcheck with ⟨rfl, rfl⟩
  exact ⟨rfl, rfl, (Cost.check_eq_ok_iff hbound hnumber).mp hcheck⟩

end CostInput

end Roster
