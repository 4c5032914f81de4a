import Mathlib.Algebra.Order.BigOperators.Group.Finset
import Mathlib.Data.Fintype.BigOperators
import Mathlib.Tactic.Abel
import Roster.Grid

/-!
# Saturating Pairings

What a matching is, apart from any way to find one: a set of pairs in which no worker and
no job comes twice, and which leaves nobody of the smaller side out.

`Saturating.sum_le` is the bound that proves a pairing cheapest. Potentials are given for
all rows and columns of the padded square, and no cell is cheaper than the potentials of
its row and its column together. A pairing of the rectangle leaves as many rows of the
square without a partner as columns, and where such a row and such a column cross lies
padding, whichever side is the larger one. So every row and every column is paid for by a
pair or by padding, and no bijection between what is left over has to be chosen with care.

## Main definitions

* `Saturating`: Pairs that match all of the smaller side.
* `Grid.costAt`: The cost of a cell.
* `Grid.costOf`: The cost of some pairs together.
* `IsCheapest`: Whether no saturating pairing costs less.

## Theorems

* `Saturating.image_fst`, `Saturating.image_snd`: The smaller side is matched as a whole.
* `Saturating.of_full`: Matching all of the smaller side makes the right number of pairs.
* `Saturating.sum_le`: Potentials bound the cost of every saturating pairing from below.
-/

namespace Roster

/-- Pairs of a worker below `n` and a job below `m` that match all of the smaller side. -/
structure Saturating (n m : Nat) (M : Finset (Nat × Nat)) : Prop where
  inside : ∀ x ∈ M, x.1 < n ∧ x.2 < m
  worker_once : ∀ x ∈ M, ∀ y ∈ M, x.1 = y.1 → x = y
  job_once : ∀ x ∈ M, ∀ y ∈ M, x.2 = y.2 → x = y
  card : M.card = min n m

namespace Grid

variable {α : Type} [AddCommMonoid α]

/-- The cost of a cell, which is zero outside of the table. -/
def costAt (g : Grid α) (w j : Nat) : α := (g.get? w j).getD 0

theorem costAt_of_lt (g : Grid α) {w j : Nat} (hw : w < g.height) (hj : j < g.width) :
    g.costAt w j = g.get ⟨w, hw⟩ ⟨j, hj⟩ := by
  rw [costAt, get?, dif_pos ⟨hw, hj⟩]
  rfl

/-- The cost of some pairs together. -/
def costOf (g : Grid α) (M : Finset (Nat × Nat)) : α := ∑ x ∈ M, g.costAt x.1 x.2

end Grid

/-- Whether some pairs saturate a table and no other such pairs cost less. -/
structure IsCheapest {α : Type} [AddCommMonoid α] [LE α] (g : Grid α) (M : Finset (Nat × Nat)) :
    Prop where
  saturating : Saturating g.height g.width M
  least : ∀ M', Saturating g.height g.width M' → g.costOf M ≤ g.costOf M'

/-- Nothing costs less than nothing where nobody can be matched. -/
theorem isCheapest_empty {α : Type} [AddCommMonoid α] [Preorder α] {g : Grid α}
    (hempty : g.height = 0 ∨ g.width = 0) : IsCheapest g ∅ := by
  have hmin : min g.height g.width = 0 := by omega
  refine ⟨⟨?_, ?_, ?_, hmin ▸ rfl⟩, fun M' hM' => ?_⟩
  · exact fun x hx => absurd hx (Finset.notMem_empty x)
  · exact fun x hx => absurd hx (Finset.notMem_empty x)
  · exact fun x hx => absurd hx (Finset.notMem_empty x)
  · rw [Finset.card_eq_zero.mp (hM'.card.trans hmin)]

namespace Saturating

variable {n m : Nat} {M : Finset (Nat × Nat)}

theorem card_image_fst (h : Saturating n m M) : (M.image Prod.fst).card = min n m :=
  (Finset.card_image_of_injOn fun x hx y hy => h.worker_once x hx y hy).trans h.card

theorem card_image_snd (h : Saturating n m M) : (M.image Prod.snd).card = min n m :=
  (Finset.card_image_of_injOn fun x hx y hy => h.job_once x hx y hy).trans h.card

theorem image_fst_subset (h : Saturating n m M) : M.image Prod.fst ⊆ Finset.range n := by
  intro w hw
  rcases Finset.mem_image.mp hw with ⟨x, hx, rfl⟩
  exact Finset.mem_range.mpr (h.inside x hx).1

theorem image_snd_subset (h : Saturating n m M) : M.image Prod.snd ⊆ Finset.range m := by
  intro j hj
  rcases Finset.mem_image.mp hj with ⟨x, hx, rfl⟩
  exact Finset.mem_range.mpr (h.inside x hx).2

theorem image_fst (h : Saturating n m M) (hnm : n ≤ m) : M.image Prod.fst = Finset.range n := by
  refine Finset.eq_of_subset_of_card_le h.image_fst_subset ?_
  rw [h.card_image_fst, Finset.card_range]
  exact le_min (le_refl n) hnm

theorem image_snd (h : Saturating n m M) (hmn : m ≤ n) : M.image Prod.snd = Finset.range m := by
  refine Finset.eq_of_subset_of_card_le h.image_snd_subset ?_
  rw [h.card_image_snd, Finset.card_range]
  exact le_min hmn (le_refl m)

/-- Pairs that have every member of a side once are as many as this side. -/
theorem card_of_full {side : Nat × Nat → Nat} {k : Nat} (inside : ∀ x ∈ M, side x < k)
    (once : ∀ x ∈ M, ∀ y ∈ M, side x = side y → x = y) (full : ∀ v, v < k → ∃ x ∈ M, side x = v) :
    M.card = k := by
  have himage : M.image side = Finset.range k := by
    ext v
    rw [Finset.mem_image, Finset.mem_range]
    constructor
    · rintro ⟨x, hx, rfl⟩
      exact inside x hx
    · exact full v
  rw [← Finset.card_range k, ← himage]
  exact (Finset.card_image_of_injOn fun x hx y hy => once x hx y hy).symm

/-- Matching all of the smaller side makes the right number of pairs. -/
theorem of_full (inside : ∀ x ∈ M, x.1 < n ∧ x.2 < m)
    (worker_once : ∀ x ∈ M, ∀ y ∈ M, x.1 = y.1 → x = y)
    (job_once : ∀ x ∈ M, ∀ y ∈ M, x.2 = y.2 → x = y)
    (workers : n ≤ m → ∀ w, w < n → ∃ j, (w, j) ∈ M)
    (jobs : m ≤ n → ∀ j, j < m → ∃ w, (w, j) ∈ M) : Saturating n m M := by
  refine ⟨inside, worker_once, job_once, ?_⟩
  rcases Nat.le_total n m with hnm | hmn
  · rw [min_eq_left hnm]
    refine card_of_full (fun x hx => (inside x hx).1) worker_once fun w hw => ?_
    rcases workers hnm w hw with ⟨j, hj⟩
    exact ⟨(w, j), hj, rfl⟩
  · rw [min_eq_right hmn]
    refine card_of_full (fun x hx => (inside x hx).2) job_once fun j hj => ?_
    rcases jobs hmn j hj with ⟨w, hw⟩
    exact ⟨(w, j), hw, rfl⟩

/-- A row and a column of the square that the pairing leaves out cross in the padding. -/
theorem padding_of_not_mem (h : Saturating n m M) {r c : Nat} (hr : r ∉ M.image Prod.fst)
    (hc : c ∉ M.image Prod.snd) : n ≤ r ∨ m ≤ c := by
  rcases Nat.le_total n m with hnm | hmn
  · rw [h.image_fst hnm, Finset.mem_range] at hr
    exact Or.inl (Nat.le_of_not_lt hr)
  · rw [h.image_snd hmn, Finset.mem_range] at hc
    exact Or.inr (Nat.le_of_not_lt hc)

/-- The pairing leaves out as many rows of the square as it leaves out columns. -/
theorem card_sdiff (h : Saturating n m M) :
    (Finset.range (max n m) \ M.image Prod.fst).card = max n m - min n m ∧
      (Finset.range (max n m) \ M.image Prod.snd).card = max n m - min n m := by
  have hn : Finset.range n ⊆ Finset.range (max n m) :=
    Finset.range_subset_range.mpr (le_max_left n m)
  have hm : Finset.range m ⊆ Finset.range (max n m) :=
    Finset.range_subset_range.mpr (le_max_right n m)
  constructor
  · rw [Finset.card_sdiff_of_subset (h.image_fst_subset.trans hn), Finset.card_range,
      h.card_image_fst]
  · rw [Finset.card_sdiff_of_subset (h.image_snd_subset.trans hm), Finset.card_range,
      h.card_image_snd]

section Duality

variable {α : Type} [AddCommGroup α] [LinearOrder α] [IsOrderedAddMonoid α] {u v : Nat → α}

omit [LinearOrder α] [IsOrderedAddMonoid α] in
/-- The potentials of the square, split into those of the pairs and those left over. -/
theorem sum_potentials (h : Saturating n m M) :
    ∑ r ∈ Finset.range (max n m), u r + ∑ c ∈ Finset.range (max n m), v c =
      ∑ x ∈ M, (u x.1 + v x.2) +
        (∑ r ∈ Finset.range (max n m) \ M.image Prod.fst, u r +
          ∑ c ∈ Finset.range (max n m) \ M.image Prod.snd, v c) := by
  have hn := h.image_fst_subset.trans (Finset.range_subset_range.mpr (le_max_left n m))
  have hm := h.image_snd_subset.trans (Finset.range_subset_range.mpr (le_max_right n m))
  rw [← Finset.sum_sdiff hn, ← Finset.sum_sdiff hm, Finset.sum_add_distrib,
    Finset.sum_image (fun x hx y hy => h.worker_once x hx y hy),
    Finset.sum_image (fun x hx y hy => h.job_once x hx y hy)]
  abel

/-- Rows and columns that cross at no more than `padding` have no more than one `padding`
    for each row. -/
theorem sum_add_sum_le {D F : Finset Nat} {padding : α} (hcard : D.card = F.card)
    (hle : ∀ r ∈ D, ∀ c ∈ F, u r + v c ≤ padding) :
    ∑ r ∈ D, u r + ∑ c ∈ F, v c ≤ D.card • padding := by
  -- Any bijection will do, since every row crosses every column at no more than `padding`.
  let e : D ≃ F := Finset.equivOfCardEq hcard
  have hmatch : ∑ c ∈ F, v c = ∑ r ∈ D.attach, v (e r) := by
    rw [← Finset.sum_coe_sort F v]
    exact (Equiv.sum_comp e fun c => v c).symm
  rw [hmatch, ← Finset.sum_attach D u, ← Finset.sum_add_distrib, ← Finset.card_attach]
  exact Finset.sum_le_card_nsmul _ _ _ fun r _ => hle r r.2 (e r) (e r).2

/-- Potentials of which no cell of the padded square costs less bound the cost of every
    saturating pairing from below, with the padding that the square needs. -/
theorem sum_le (h : Saturating n m M) (cost : Nat → Nat → α) (padding : α)
    (hreal : ∀ w j, w < n → j < m → u w + v j ≤ cost w j)
    (hpad : ∀ r c, r < max n m → c < max n m → n ≤ r ∨ m ≤ c → u r + v c ≤ padding) :
    ∑ r ∈ Finset.range (max n m), u r + ∑ c ∈ Finset.range (max n m), v c ≤
      ∑ x ∈ M, cost x.1 x.2 + (max n m - min n m) • padding := by
  have hpairs : ∑ x ∈ M, (u x.1 + v x.2) ≤ ∑ x ∈ M, cost x.1 x.2 :=
    Finset.sum_le_sum fun x hx => hreal x.1 x.2 (h.inside x hx).1 (h.inside x hx).2
  have hrest := sum_add_sum_le (h.card_sdiff.1.trans h.card_sdiff.2.symm)
    (fun r (hr : r ∈ Finset.range (max n m) \ _) c (hc : c ∈ Finset.range (max n m) \ _) =>
      show u r + v c ≤ padding by
      rw [Finset.mem_sdiff, Finset.mem_range] at hr hc
      exact hpad r c hr.1 hc.1 (h.padding_of_not_mem hr.2 hc.2))
  -- Pairs are paid for by their cells, and what is left over by the padding.
  rw [h.card_sdiff.1] at hrest
  rw [h.sum_potentials]
  exact add_le_add hpairs hrest

end Duality

end Saturating

end Roster
