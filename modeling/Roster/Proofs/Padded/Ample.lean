import Roster.Proofs.Cost.Acceptance
import Roster.Proofs.Number.Error
import Roster.Proofs.Padded.Whole
import Roster.Proofs.Search.Rounded

/-!
# Caps Far Above the Costs

Doubles round every sum by itself, and by no more than a small part of it. So if no sum is large,
then no error is, and a search in doubles is one that rounds within a limit. How far the cap has to
lie above the costs depends on the side of the square: twenty times the greatest cost for each
slot. Up to a side of thirty thousand, all errors together are less than that cost.

The default cap is a milliard times the default padding, which no accepted cost reaches. So at
these settings the cap lies far above any accepted costs, be they whole or not.

## Main definitions

* `Binary64.reading`: Finite doubles with their values.
* `Binary64.IsUpTo`: A double between a whole number and its negative.
* `Padded.AmpleSettings`: A padding far below the cap.
* `Padded.AmpleReach`: A rectangle of costs far below the cap.

## Theorems

* `Binary64.double_rounds`: Doubles are rounded within any limit.
* `Padded.AmpleReach.roundedCosts`: A search at such costs rounds within a limit.
* `Padded.AmpleSettings.of_fits`: Costs that pass the check need no look of their own.
-/

namespace Roster

namespace Binary64

/-- Finite doubles with their values. -/
def reading : Reading Float where
  sound x := x.isFinite = true
  value := value

theorem double_rounds {limit : ℚ} (hlimit : limit ≤ 2 ^ 1023) :
    Arithmetic.double.Rounds reading limit (limit / 2 ^ 52) where
  sound_zero := rfl
  value_zero := by decide +kernel
  add := fun x y hx hy h => by
    rcases add_close hx hy (h.trans hlimit) with ⟨hfinite, hclose⟩
    exact ⟨hfinite, hclose.trans (div_le_div_of_nonneg_right h (by positivity))⟩
  sub := fun x y hx hy h => by
    rcases sub_close hx hy (h.trans hlimit) with ⟨hfinite, hclose⟩
    exact ⟨hfinite, hclose.trans (div_le_div_of_nonneg_right h (by positivity))⟩

/-- A double between a whole number and its negative. -/
def IsUpTo (top : ℤ) (x : Float) : Prop :=
  (Number.whole (-top)).atMost (.real x) = true ∧ (Number.real x).atMost (.whole top) = true

/-- Such a double has a value, which is between them. -/
theorem IsUpTo.value_within {top : ℤ} {x : Float} (h : IsUpTo top x) :
    x.isFinite = true ∧ |value x| ≤ top := by
  rcases Number.atMost_iff.mp h.1 with ⟨_, q, ⟨⟩, hq, hle⟩
  rcases Number.atMost_iff.mp h.2 with ⟨q', _, hq', ⟨⟩, hle'⟩
  rcases Option.some.inj (hq.symm.trans hq') with rfl
  have hvalue : extended? x = some q := hq
  -- Between two rational values there is no infinite one.
  cases q using WithBot.recBotCoe with
  | bot => exact absurd hle (by simp [Extended.ofRat])
  | coe q =>
    cases q using WithTop.recTopCoe with
    | top => exact absurd hle' (by simp [Extended.ofRat])
    | coe q =>
      have hlow : ((-top : ℤ) : ℚ) ≤ q := Extended.strictMono_ofRat.le_iff_le.mp hle
      have hhigh : q ≤ (top : ℚ) := Extended.strictMono_ofRat.le_iff_le.mp hle'
      rw [Int.cast_neg] at hlow
      rw [value_eq hvalue]
      exact ⟨isFinite_of_extended? hvalue, abs_le.mpr ⟨hlow, hhigh⟩⟩

end Binary64

namespace Padded

open Search

variable {costs : Grid Float} {padding reach : Float} {N : Nat} {top : ℤ}

/-- A padding and a cap far above it, for a square of side `N`. -/
structure AmpleSettings (N : Nat) (padding reach : Float) (top : ℤ) : Prop where
  padding_upTo : Binary64.IsUpTo top padding
  side : N < 2 ^ 15
  range : 20 * (N + 1) * top ≤ 2 ^ 1023
  below : (Number.whole (20 * (N + 1) * top)).less (.real reach) = true

/-- A rectangle of costs within the same limits. They need not be whole, and they may have either
    sign. -/
structure AmpleReach (costs : Grid Float) (N : Nat) (padding reach : Float) (top : ℤ) : Prop
    extends AmpleSettings N padding reach top where
  costs_upTo : ∀ x ∈ costs.toList, Binary64.IsUpTo top x

theorem AmpleSettings.top_nonneg (h : AmpleSettings N padding reach top) : (0 : ℚ) ≤ top :=
  (abs_nonneg _).trans h.padding_upTo.value_within.2

/-- A check tells of the costs what has to be known but of the padding. -/
theorem AmpleSettings.of_fits (h : AmpleSettings N padding reach top)
    (hfits : costs.Fits padding) : AmpleReach costs N padding reach top where
  toAmpleSettings := h
  costs_upTo := by
    intro x hx
    rcases hfits x hx with ⟨hfinite, hnonneg, hlt⟩
    have hvalue := Binary64.extended?_of_isFinite hfinite
    have hzero : ((-top : ℤ) : ℚ) ≤ 0 := by
      rw [Int.cast_neg]
      exact neg_nonpos.mpr h.top_nonneg
    refine ⟨Number.atMost_iff.mpr ⟨_, _, rfl, hvalue, ?_⟩,
      Number.atMost_iff.mpr ⟨_, _, hvalue, rfl, ?_⟩⟩
    · exact Extended.strictMono_ofRat.monotone
        (hzero.trans (Binary64.value_nonneg hfinite hnonneg))
    · rcases Binary64.lt_iff_extended.mp hlt with ⟨p, q, hp, hq, hpq⟩
      rcases Number.atMost_iff.mp h.padding_upTo.2 with ⟨q', r, hq', hr, hle⟩
      rcases Option.some.inj (hvalue.symm.trans hp) with rfl
      rcases Option.some.inj (hq.symm.trans hq') with rfl
      rcases Option.some.inj hr with rfl
      exact hpq.le.trans hle

namespace AmpleReach

theorem cell_within (h : AmpleReach costs N padding reach top) (r j : Slot N) :
    (cell costs padding r j).isFinite = true ∧
      |Binary64.value (cell costs padding r j)| ≤ top := by
  rcases List.mem_cons.mp (cell_mem r j) with hpadding | hcost
  · rw [hpadding]
    exact h.padding_upTo.value_within
  · exact (h.costs_upTo _ hcost).value_within

/-- Up to so large a side all errors together are less than the greatest cost. -/
theorem error_le (h : AmpleReach costs N padding reach top) :
    4 * ((N : ℚ) + 1) ^ 2 * (20 * (N + 1) * top / 2 ^ 52) ≤ top := by
  have hside : (N : ℚ) + 1 ≤ 2 ^ 15 := by exact_mod_cast h.side
  -- As `80` is less than `2 ^ 7`, there is room for the cube of the side in `2 ^ 52`.
  have hcube : ((N : ℚ) + 1) ^ 3 ≤ (2 ^ 15) ^ 3 := pow_le_pow_left₀ (by positivity) hside 3
  have hall : 80 * ((N : ℚ) + 1) ^ 3 / 2 ^ 52 ≤ 1 := by
    rw [div_le_one (by positivity)]
    linarith
  calc 4 * ((N : ℚ) + 1) ^ 2 * (20 * (N + 1) * (top : ℚ) / 2 ^ 52)
      = 80 * ((N : ℚ) + 1) ^ 3 / 2 ^ 52 * (top : ℚ) := by ring
    _ ≤ 1 * (top : ℚ) := mul_le_mul_of_nonneg_right hall h.top_nonneg
    _ = top := one_mul _

theorem roundedCosts (h : AmpleReach costs N padding reach top) :
    RoundedCosts .double Binary64.reading (cell (N := N) costs padding) reach top
      (20 * (N + 1) * top / 2 ^ 52) where
  rounds := Binary64.double_rounds (by
    have hrange := (Int.cast_le (R := ℚ)).mpr h.range
    rw [Int.cast_pow, Int.cast_ofNat] at hrange
    simpa only [Int.cast_mul, Int.cast_add, Int.cast_ofNat, Int.cast_natCast, Int.cast_one]
      using hrange)
  sound := fun r j _ _ => (h.cell_within r j).1
  within := fun r j _ _ => (h.cell_within r j).2
  small := h.error_le
  below := fun x hx hle => by
    rcases Number.less_iff.mp h.below with ⟨p, cap, hp, hcap, hlt⟩
    rcases Option.some.inj hp with rfl
    refine decide_eq_true (Binary64.lt_iff_extended.mpr
      ⟨_, cap, Binary64.extended?_of_isFinite hx, hcap, lt_of_le_of_lt ?_ hlt⟩)
    refine Extended.strictMono_ofRat.monotone ?_
    push_cast
    exact (le_abs_self _).trans hle

end AmpleReach

end Padded

end Roster
