import Roster.Proofs.Number.Value
import Roster.Proofs.Padded.Certificate
import Roster.Proofs.Pairing.Square
import Roster.Proofs.Search.WholeDoubles

/-!
# Whole Rectangles in Doubles

What is true of the padded search in exact arithmetic is true of it in doubles, if the costs
and the padding are whole and small enough for no sum to be rounded. Then it ends, its matching
is cheapest at the values of the costs, and the total that it reports is the value of the
matching and not a rounding of it.

How small that is depends on the side of the square. With the default padding whole costs are
small enough up to a side of nine million. The cap has only to lie above twice the greatest cost.

## Main definitions

* `Padded.WholeSquare`: A rectangle of whole costs whose sums doubles can hold.

## Theorems

* `Padded.WholeSquare.wholeCosts`: Its square has whole costs.
* `Padded.WholeSquare.solve_isCheapest`: Its solve in doubles is cheapest at exact values.
-/

namespace Roster

namespace Binary64

variable {x : Float} {top : ℤ}

/-- Whether a double is a whole number between zero and `top`. -/
def isWholeUpTo (top : ℤ) (x : Float) : Bool :=
  (toRat? x).any fun q => q.den == 1 && decide (0 ≤ q.num) && decide (q.num ≤ top)

theorem isWholeUpTo_iff : isWholeUpTo top x = true ↔
    ∃ z : ℤ, toRat? x = some (z : ℚ) ∧ 0 ≤ z ∧ z ≤ top := by
  rw [isWholeUpTo, Option.any_eq_true]
  simp only [Bool.and_eq_true, beq_iff_eq, decide_eq_true_iff]
  constructor
  · rintro ⟨q, hq, ⟨hden, hlow⟩, hhigh⟩
    exact ⟨q.num, by rw [hq, Rat.coe_int_num_of_den_eq_one hden], hlow, hhigh⟩
  · rintro ⟨z, hz, hlow, hhigh⟩
    exact ⟨z, hz, ⟨rfl, hlow⟩, hhigh⟩

theorem value_of_isWholeUpTo (h : isWholeUpTo top x = true) :
    ((value x).num : ℚ) = value x ∧ 0 ≤ (value x).num ∧ (value x).num ≤ top := by
  rcases isWholeUpTo_iff.mp h with ⟨z, hz, hlow, hhigh⟩
  rw [value, hz, Option.getD_some]
  exact ⟨rfl, hlow, hhigh⟩

theorem IsWhole.of_isWholeUpTo (h : isWholeUpTo top x = true) (htop : top < 2 ^ 53) :
    IsWhole x (value x).num := by
  rcases isWholeUpTo_iff.mp h with ⟨z, hz, hlow, hhigh⟩
  rw [value, hz, Option.getD_some]
  exact .of_toRat? hz (by simp only [Rat.num_intCast]; omega)

end Binary64

namespace Padded

open Search

section Cells

variable {α β : Type} {costs : Grid α} {padding : α} {N : Nat}

/-- The cells of the square are the costs and the padding. -/
theorem cell_mem (r j : Slot N) : cell costs padding r j ∈ padding :: costs.toList := by
  rw [cell]
  split
  · rw [Grid.get?]
    split
    · exact List.mem_cons_of_mem _ (costs.get_mem_toList _ _)
    · exact List.mem_cons_self
  · exact List.mem_cons_self

theorem cell_map (f : α → β) (r j : Slot N) :
    cell (costs.map f) (f padding) r j = f (cell costs padding r j) := by
  rw [cell, cell, Grid.get?_map]
  split
  · cases costs.get? (r.val - 1) (j.val - 1) with
    | none => rfl
    | some x => rfl
  · rfl

end Cells

variable {costs : Grid Float} {padding reach : Float} {N : Nat} {top : ℤ}

/-- A rectangle of whole costs, with a whole padding, in a square of side `N`: so small that no
    sum of a matching is rounded, and with the cap above twice the greatest cost. -/
structure WholeSquare (costs : Grid Float) (N : Nat) (padding reach : Float) (top : ℤ) :
    Prop where
  cells : ∀ x ∈ padding :: costs.toList, Binary64.isWholeUpTo top x = true
  twice : 2 * top < 2 ^ 53
  all : N * top < 2 ^ 53
  below : Binary64.ofWhole (2 * top) < reach

/-- The cells of the square as whole numbers. -/
def wholeCell (costs : Grid Float) (padding : Float) (r j : Slot N) : ℤ :=
  (Binary64.value (cell costs padding r j)).num

namespace WholeSquare

theorem top_nonneg (h : WholeSquare costs N padding reach top) : 0 ≤ top := by
  rcases Binary64.isWholeUpTo_iff.mp (h.cells padding List.mem_cons_self) with ⟨z, _, hlow, hhigh⟩
  exact hlow.trans hhigh

theorem wholeCosts (h : WholeSquare costs N padding reach top) :
    WholeCosts (cell costs padding) (wholeCell (N := N) costs padding) top reach where
  whole := fun r j _ _ => by
    have htop := h.top_nonneg
    have htwice := h.twice
    exact .of_isWholeUpTo (h.cells _ (cell_mem r j)) (by omega)
  within := fun r j _ _ => (Binary64.value_of_isWholeUpTo (h.cells _ (cell_mem r j))).2
  twice := h.twice
  all := h.all
  below := fun x z hx hz => by
    have htop := h.top_nonneg
    have htwice := h.twice
    have hdigits : (2 * top).natAbs < 2 ^ 53 := by omega
    -- Twice the greatest cost is held exactly, so doubles up to it lie below the cap.
    have hgreatest := Binary64.IsWhole.of_toRat? (Binary64.toRat?_ofWhole hdigits) hdigits
    exact Binary64.lt_of_le_of_lt ((hx.le_iff hgreatest).mpr hz) h.below

/-- As numbers of the exact search, the whole cells are the square of the values. -/
theorem exactCosts_eq (h : WholeSquare costs N padding reach top) :
    exactCosts (wholeCell (N := N) costs padding) =
      cell (costs.map Binary64.value) (Binary64.value padding) := by
  funext r j
  rw [cell_map]
  exact (Binary64.value_of_isWholeUpTo (h.cells _ (cell_mem r j))).1

/-- A cost stands for its value. -/
theorem standsFor_get (h : WholeSquare costs N padding reach top) (i : Fin costs.height)
    (j : Fin costs.width) : StandsFor (costs.get i j) (Binary64.value (costs.get i j)) ∧
      0 ≤ Binary64.value (costs.get i j) ∧ Binary64.value (costs.get i j) ≤ top := by
  have htop := h.top_nonneg
  have htwice := h.twice
  have hcell := h.cells _ (List.mem_cons_of_mem _ (costs.get_mem_toList i j))
  rcases Binary64.value_of_isWholeUpTo hcell with ⟨heq, hlow, hhigh⟩
  refine ⟨⟨_, heq.symm, .of_isWholeUpTo hcell (by omega)⟩, ?_, ?_⟩
  · rw [← heq]
    exact Int.cast_nonneg hlow
  · rw [← heq]
    exact Int.cast_le.mpr hhigh

/-- The sum of some costs is not rounded, whatever they are added to, while it can be held. -/
theorem exists_addCosts (h : WholeSquare costs N padding reach top) (pairs : List (Nat × Nat))
    (hinside : ∀ x ∈ pairs, x.1 < costs.height ∧ x.2 < costs.width) {sum : Float} {q : ℚ}
    (hsum : StandsFor sum q) (hq : 0 ≤ q) (hfits : q + pairs.length * top < 2 ^ 53) :
    ∃ total, Outcome.addCosts .double costs pairs sum = .ok total ∧ StandsFor total
      (q + (pairs.map fun x => (costs.map Binary64.value).costAt x.1 x.2).sum) := by
  induction pairs generalizing sum q with
  | nil =>
      refine ⟨sum, rfl, ?_⟩
      rw [List.map_nil, List.sum_nil, add_zero]
      exact hsum
  | cons x rest ih =>
      have hx := hinside x List.mem_cons_self
      have hget : costs.get? x.1 x.2 = some (costs.get ⟨x.1, hx.1⟩ ⟨x.2, hx.2⟩) := dif_pos hx
      have hcost : (costs.map Binary64.value).costAt x.1 x.2 =
          Binary64.value (costs.get ⟨x.1, hx.1⟩ ⟨x.2, hx.2⟩) := by
        rw [Grid.costAt, Grid.get?_map, hget]
        rfl
      rcases h.standsFor_get ⟨x.1, hx.1⟩ ⟨x.2, hx.2⟩ with ⟨hstands, hlow, hhigh⟩
      rw [Outcome.addCosts, hget, List.map_cons, List.sum_cons, hcost, ← add_assoc]
      rw [List.length_cons] at hfits
      push_cast at hfits
      have hrest : (0 : ℚ) ≤ rest.length * top :=
        mul_nonneg (Nat.cast_nonneg _) (Int.cast_nonneg h.top_nonneg)
      -- The new sum is whole, and it leaves room for the costs that are still to come.
      have hrange : InRange (q + Binary64.value (costs.get ⟨x.1, hx.1⟩ ⟨x.2, hx.2⟩)) := by
        rcases hsum with ⟨a, rfl, _⟩
        rcases hstands with ⟨b, hb, _⟩
        rw [hb] at hlow hhigh ⊢
        refine ⟨a + b, by push_cast; rfl, ?_⟩
        have hlow' : 0 ≤ a + b := by exact_mod_cast add_nonneg hq hlow
        have hhigh' : (a : ℚ) + b < 2 ^ 53 := by linarith
        have hhigh'' : a + b < 2 ^ 53 := by exact_mod_cast hhigh'
        omega
      exact ih (fun y hy => hinside y (List.mem_cons_of_mem _ hy))
        (double_follows.add hsum hstands hrange) (by linarith) (by linarith)

/-- The solve of a rectangle of whole costs in doubles is cheapest at the values of the costs,
    and its total is the value of its matching. -/
theorem solve_isCheapest
    (h : WholeSquare costs (max costs.height costs.width) padding reach top)
    (hn : costs.height ≠ 0) (hm : costs.width ≠ 0) :
    ∃ o, solve .double costs costs.height costs.width padding reach = .ok o ∧
      IsCheapest (costs.map Binary64.value) o.workerOf.pairs.toFinset ∧
      Binary64.toRat? o.total =
        some ((costs.map Binary64.value).costOf o.workerOf.pairs.toFinset) := by
  have hbelow : ∀ r j : Slot (max costs.height costs.width), r ≠ 0 → j ≠ 0 →
      exactCosts (wholeCell costs padding) r j < exactReach top := fun r j hr hj =>
    (h.wholeCosts.costsWithin.le_top r j hr hj).trans_lt (WholeCosts.top_lt h.top_nonneg)
  rcases exists_mirrored h.wholeCosts _ (le_refl _) with ⟨s, t, hs, ht, hmirrors⟩
  rw [take_rows, ← final_eq] at hs ht
  rcases exists_final hbelow with ⟨t', ht', b⟩
  rcases Option.some.inj (ht.symm.trans ht') with rfl
  rw [h.exactCosts_eq] at b
  -- Both searches end with the same rows in the same columns.
  have hmatching : workerOf costs.height costs.width s = workerOf costs.height costs.width t := by
    rw [workerOf, workerOf, hmirrors.rowOf]
  have hcheap : IsCheapest (costs.map Binary64.value)
      (workerOf costs.height costs.width t).pairs.toFinset := isCheapest b
  have hsat : (workerOf costs.height costs.width t).Saturates costs.height costs.width :=
    saturates_workerOf rfl b.toSettled
  -- No more costs are added than the square has rows.
  have hfits : 0 + ((workerOf costs.height costs.width t).pairs.length : ℚ) * top < 2 ^ 53 := by
    have hlen : ((workerOf costs.height costs.width t).pairs.length : ℤ) ≤
        (max costs.height costs.width : ℕ) := by
      rw [hsat.length_pairs]
      omega
    have hsum := (Int.mul_le_mul_of_nonneg_right hlen h.top_nonneg).trans_lt h.all
    rw [zero_add]
    exact_mod_cast hsum
  rcases h.exists_addCosts _ hsat.inside double_follows.zero (le_refl _) hfits
    with ⟨total, htotal, z, hz, hwhole⟩
  rw [solve_of_final hn hm hs, hmatching]
  refine ⟨_, congrArg (Except.map _) htotal, hcheap, ?_⟩
  have hcost : (costs.map Binary64.value).costOf
      (workerOf costs.height costs.width t).pairs.toFinset = z := by
    rw [← hz, Grid.costOf, List.sum_toFinset _ (Matching.nodup_pairs _)]
    exact (zero_add _).symm
  rw [hcost]
  exact hwhole.toRat?

end WholeSquare

end Padded

end Roster
