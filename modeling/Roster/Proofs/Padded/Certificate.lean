import Mathlib.Algebra.Order.Ring.Rat
import Roster.Proofs.Padded.Saturation
import Roster.Proofs.Search.Balance

/-!
# Certificates

The padded search in exact arithmetic. Its final potentials certify its matching: together
they are as large as the matched cells of the padded square, and no cell is cheaper than
the potentials of its row and its column. Every saturating pairing of the rectangle is
bounded by them from below, and the kept pairs meet the bound, so they are cheapest.

Padding cells are matched in every outcome that is not balanced, always the same number of
them. That is why their cost is in the sum of the potentials and drops out of every
comparison.

The certificate is there after each single row and not only at the end, as long as no
cost is negative: the potentials of rows that are still to come are zero, and no column
has a positive one.

## Main definitions

* `Search.Certified`: What the potentials of a state certify.
* `Search.potential`: A potential by the number of its row or column.

## Theorems

* `Padded.exists_outcome`: The search ends and answers in exact arithmetic.
* `Padded.sum_potentials`: The potentials amount to the total and the padding.
* `Padded.isCheapest`: The kept pairs are cheapest.
* `solve_certified`: The certificate after each row, and that of the outcome.
* `solve_cheapest`: The outcome is a cheapest saturating matching.
-/

namespace Roster

namespace Search

variable {α : Type} {N : Nat} [CommRing α] [LinearOrder α] {cost : Slot N → Slot N → α}
  {s : State α N}

/-- What the potentials of a state certify: no cell is cheaper than its row and its column,
    matched cells are as expensive, and a column without a row has no share in that. -/
structure Certified (cost : Slot N → Slot N → α) (s : State α N) : Prop where
  feasible : ∀ r j : Slot N, r ≠ 0 → j ≠ 0 → 0 ≤ cost r j - s.rowPotential[r] - s.colPotential[j]
  tight : ∀ j : Slot N, j ≠ 0 → s.rowOf[j] ≠ 0 →
    cost s.rowOf[j] j - s.rowPotential[s.rowOf[j]] - s.colPotential[j] = 0
  nonpos : ∀ j : Slot N, j ≠ 0 → s.colPotential[j] ≤ 0
  vacant : ∀ j : Slot N, j ≠ 0 → s.rowOf[j] = 0 → s.colPotential[j] = 0
  virtual : s.rowPotential[(0 : Slot N)] = 0

/-- Rows that are still to come have no potential, so a balanced state certifies them too. -/
theorem Balanced.certified [IsStrictOrderedRing α] {R : Finset (Slot N)} (b : Balanced cost s R)
    (hcost : ∀ r j : Slot N, r ≠ 0 → j ≠ 0 → 0 ≤ cost r j) : Certified cost s where
  feasible := fun r j hr hj => by
    by_cases hmem : r ∈ R
    · exact b.feasible r hmem j hj
    · rw [b.untouched r hmem, sub_zero]
      exact sub_nonneg.mpr ((b.nonpos j hj).trans (hcost r j hr hj))
  tight := fun j hj hrow => b.tight j _ hj rfl hrow
  nonpos := b.nonpos
  vacant := b.vacant
  virtual := b.untouched 0 fun hmem => ((b.placed.mem_iff 0).mp hmem).1 rfl

/-- A potential by the number of its row or column. -/
def potential (v : Vector α (N + 1)) (k : Nat) : α :=
  if hk : k < N then v[slot k hk] else 0

omit [LinearOrder α] in
theorem potential_slot (v : Vector α (N + 1)) {k : Nat} (hk : k < N) :
    potential v k = v[slot k hk] := dif_pos hk

omit [LinearOrder α] in
/-- The potentials in order, without the one of the virtual slot. -/
theorem drop_one_eq (v : Vector α (N + 1)) :
    v.toList.drop 1 = (List.range N).map (potential v) := by
  refine List.ext_getElem? fun k => ?_
  rw [List.getElem?_drop, List.getElem?_map]
  by_cases hk : k < N
  · rw [toList_slot v hk, List.getElem?_range hk, Option.map_some, potential_slot v hk]
  · have hlen : v.toList.length ≤ 1 + k := by
      rw [Vector.length_toList]
      omega
    rw [List.getElem?_eq_none hlen, List.getElem?_eq_none (by rw [List.length_range]; omega),
      Option.map_none]

omit [LinearOrder α] in
theorem length_drop_one (v : Vector α (N + 1)) : (v.toList.drop 1).length = N := by
  rw [drop_one_eq, List.length_map, List.length_range]

omit [LinearOrder α] in
theorem getElem?_drop_one (v : Vector α (N + 1)) {k : Nat} (hk : k < N) :
    (v.toList.drop 1)[k]? = some (potential v k) := by
  rw [drop_one_eq, List.getElem?_map, List.getElem?_range hk, Option.map_some]

omit [LinearOrder α] in
theorem sum_drop_one (v : Vector α (N + 1)) :
    (v.toList.drop 1).sum = ∑ k ∈ Finset.range N, potential v k := by
  rw [drop_one_eq, ← List.sum_toFinset _ List.nodup_range]
  refine Finset.sum_congr ?_ fun _ _ => rfl
  ext k
  rw [List.mem_toFinset, List.mem_range, Finset.mem_range]

end Search

open Search

namespace Padded

variable {α : Type} [CommRing α] [LinearOrder α] {costs : Grid α} {padding reach : α}

omit [LinearOrder α] in
/-- The padded square by the numbers of its rows and columns. -/
theorem cell_slot {N : Nat} {r c : Nat} (hr : r < N) (hc : c < N) :
    cell costs padding (slot r hr) (slot c hc) =
      if r < costs.height ∧ c < costs.width then costs.costAt r c else padding := by
  have hpos : 0 < (slot r hr).val ∧ 0 < (slot c hc).val := ⟨Nat.succ_pos r, Nat.succ_pos c⟩
  have hval : costs.get? ((slot r hr).val - 1) ((slot c hc).val - 1) = costs.get? r c := rfl
  rw [cell, if_pos hpos, hval, Grid.costAt, Grid.get?]
  by_cases h : r < costs.height ∧ c < costs.width
  · rw [dif_pos h, if_pos h]
    rfl
  · rw [dif_neg h, if_neg h]
    rfl

omit [LinearOrder α] in
/-- What holds of all costs and of the padding holds of the padded square. -/
theorem cell_forall {N : Nat} {P : α → Prop}
    (hcost : ∀ w j, w < costs.height → j < costs.width → P (costs.costAt w j)) (hpad : P padding)
    {r c : Slot N} (hr : r ≠ 0) (hc : c ≠ 0) : P (cell costs padding r c) := by
  rcases exists_slot hr with ⟨w, hw, rfl⟩
  rcases exists_slot hc with ⟨j, hj, rfl⟩
  rw [cell_slot]
  by_cases h : w < costs.height ∧ j < costs.width
  · rw [if_pos h]
    exact hcost w j h.1 h.2
  · rw [if_neg h]
    exact hpad

/-- The outcome that a final state holds in exact arithmetic. -/
def outcome (costs : Grid α) (s : State α (max costs.height costs.width)) : Outcome α where
  total := costs.costOf (workerOf costs.height costs.width s).pairs.toFinset
  workerOf := workerOf costs.height costs.width s
  idle := (workerOf costs.height costs.width s).idle costs.height
  status := Status.ofSize costs.height costs.width
  rowPotentials := s.rowPotential.toList.drop 1
  colPotentials := s.colPotential.toList.drop 1

variable [IsStrictOrderedRing α]

omit [IsStrictOrderedRing α] in
/-- A run that ends answers with what its final state holds. -/
theorem solve_eq_outcome (hn : costs.height ≠ 0) (hm : costs.width ≠ 0)
    {s : State α (max costs.height costs.width)}
    (hs : final .ofOrder (max costs.height costs.width) (cell costs padding) reach = some s) :
    solve .ofOrder costs costs.height costs.width padding reach = .ok (outcome costs s) := by
  rw [solve_of_final hn hm hs]
  exact (saturates_workerOf rfl (final_settled hs)).outcome_eq _ _

omit [IsStrictOrderedRing α] in
/-- The cells of the square are below a cap that is above all costs and the padding. -/
theorem cell_lt (hcost : ∀ w j, w < costs.height → j < costs.width → costs.costAt w j < reach)
    (hpad : padding < reach) : ∀ r c : Slot (max costs.height costs.width), r ≠ 0 → c ≠ 0 →
      cell costs padding r c < reach :=
  fun _ _ => cell_forall (P := (· < reach)) hcost hpad

/-- The search ends and answers in exact arithmetic, if the cap is above all costs. -/
theorem exists_outcome (hn : costs.height ≠ 0) (hm : costs.width ≠ 0)
    (hcost : ∀ w j, w < costs.height → j < costs.width → costs.costAt w j < reach)
    (hpad : padding < reach) :
    ∃ s, Balanced (cell costs padding) s (rows (max costs.height costs.width)).toFinset ∧
      solve .ofOrder costs costs.height costs.width padding reach = .ok (outcome costs s) := by
  rcases exists_final (cell_lt hcost hpad) with ⟨s, hs, b⟩
  exact ⟨s, b, solve_eq_outcome hn hm hs⟩

section Final

variable {s : State α (max costs.height costs.width)}
  (b : Balanced (cell costs padding) s (rows (max costs.height costs.width)).toFinset)

include b

omit [IsStrictOrderedRing α] in
/-- No cell of the square is cheaper than the potentials of its row and its column. -/
theorem potential_le {r c : Nat} (hr : r < max costs.height costs.width)
    (hc : c < max costs.height costs.width) :
    0 ≤ (if r < costs.height ∧ c < costs.width then costs.costAt r c else padding) -
      potential s.rowPotential r - potential s.colPotential c := by
  have h := b.feasible (slot r hr) (mem_rows_toFinset.mpr (slot_ne_zero r hr)) (slot c hc)
    (slot_ne_zero c hc)
  rw [Probe.reduced_eq, cell_slot] at h
  rw [potential_slot _ hr, potential_slot _ hc]
  exact h

omit [IsStrictOrderedRing α] in
/-- A matched cell is as expensive as the potentials of its row and its column. -/
theorem potential_eq {r c : Nat} (hr : r < max costs.height costs.width)
    (hc : c < max costs.height costs.width) (hrow : s.rowOf[slot c hc] = slot r hr) :
    (if r < costs.height ∧ c < costs.width then costs.costAt r c else padding) -
      potential s.rowPotential r - potential s.colPotential c = 0 := by
  have h := b.tight (slot c hc) (slot r hr) (slot_ne_zero c hc) hrow (slot_ne_zero r hr)
  rw [Probe.reduced_eq, cell_slot] at h
  rw [potential_slot _ hr, potential_slot _ hc]
  exact h

omit [IsStrictOrderedRing α] in
/-- A row and a column that are matched to each other are both kept or both left out. -/
theorem mem_image_iff {r c : Nat} (hr : r < max costs.height costs.width)
    (hc : c < max costs.height costs.width) (hrow : s.rowOf[slot c hc] = slot r hr) :
    c ∈ (workerOf costs.height costs.width s).pairs.toFinset.image Prod.snd ↔
      r ∈ (workerOf costs.height costs.width s).pairs.toFinset.image Prod.fst := by
  -- A column holds one row, and a row stands in one column, so a kept pair of the one is
  -- the pair of the other.
  rw [Finset.mem_image, Finset.mem_image]
  constructor
  · rintro ⟨⟨w, j⟩, hx, rfl⟩
    rcases mem_pairs_iff.mp hx with ⟨_, _, hw, _, hrow'⟩
    have hwr : w = r := Nat.succ.inj (congrArg Fin.val (hrow'.symm.trans hrow))
    exact ⟨(w, j), hx, hwr⟩
  · rintro ⟨⟨w, j⟩, hx, rfl⟩
    rcases mem_pairs_iff.mp hx with ⟨_, _, _, hj, hrow'⟩
    have heq := b.placed.once _ _ (slot_ne_zero j hj) (slot_ne_zero c hc)
      (hrow'.trans hrow.symm) (hrow' ▸ slot_ne_zero w hr)
    exact ⟨(w, j), hx, Nat.succ.inj (congrArg Fin.val heq)⟩

omit [IsStrictOrderedRing α] in
/-- What the rows that are left out have in potential, the columns that are left out lack. -/
theorem sum_left_out :
    ∑ c ∈ Finset.range (max costs.height costs.width) \
        (workerOf costs.height costs.width s).pairs.toFinset.image Prod.snd,
        (padding - potential s.colPotential c) =
      ∑ r ∈ Finset.range (max costs.height costs.width) \
        (workerOf costs.height costs.width s).pairs.toFinset.image Prod.fst,
        potential s.rowPotential r := by
  have hrow : ∀ c (hc : c < max costs.height costs.width), ∃ r,
      ∃ hr : r < max costs.height costs.width, s.rowOf[slot c hc] = slot r hr := fun c hc =>
    exists_slot (b.placed.occupied (slot_ne_zero c hc))
  have hval : ∀ {c r} (hc : c < max costs.height costs.width)
      (hr : r < max costs.height costs.width), s.rowOf[slot c hc] = slot r hr →
        s.rowOf[slot c hc].val - 1 = r := by
    intro c r hc hr h
    rw [h]
    rfl
  -- Each column that is left out goes to its row, which is left out as well.
  refine Finset.sum_bij (fun c hc => s.rowOf[slot c (Finset.mem_range.mp
    (Finset.mem_sdiff.mp hc).1)].val - 1) ?_ ?_ ?_ ?_
  · intro c hc
    rw [Finset.mem_sdiff, Finset.mem_range] at hc
    rcases hrow c hc.1 with ⟨r, hr, h⟩
    rw [hval hc.1 hr h, Finset.mem_sdiff, Finset.mem_range, ← mem_image_iff b hr hc.1 h]
    exact ⟨hr, hc.2⟩
  · intro c hc d hd heq
    rw [Finset.mem_sdiff, Finset.mem_range] at hc hd
    rcases hrow c hc.1 with ⟨r, hr, h⟩
    rcases hrow d hd.1 with ⟨r', hr', h'⟩
    simp only [hval hc.1 hr h, hval hd.1 hr' h'] at heq
    subst heq
    have hslot := b.placed.once _ _ (slot_ne_zero c hc.1) (slot_ne_zero d hd.1)
      (h.trans h'.symm) (h ▸ slot_ne_zero r hr)
    exact Nat.succ.inj (congrArg Fin.val hslot)
  · intro r hr
    rw [Finset.mem_sdiff, Finset.mem_range] at hr
    rcases (b.placed.mem_iff (slot r hr.1)).mp (mem_rows_toFinset.mpr (slot_ne_zero r hr.1))
      with ⟨_, k, hk, h⟩
    rcases exists_slot hk with ⟨c, hc, rfl⟩
    refine ⟨c, ?_, hval hc hr.1 h⟩
    rw [Finset.mem_sdiff, Finset.mem_range, mem_image_iff b hr.1 hc h]
    exact ⟨hc, hr.2⟩
  · -- Their cell would be kept if it lay in the rectangle, so it is padding, and tight.
    intro c hc
    rw [Finset.mem_sdiff, Finset.mem_range] at hc
    rcases hrow c hc.1 with ⟨r, hr, h⟩
    have hout : ¬ (r < costs.height ∧ c < costs.width) := fun hin =>
      hc.2 (Finset.mem_image.mpr
        ⟨(r, c), mem_pairs_iff.mpr ⟨hin.1, hin.2, hr, hc.1, h⟩, rfl⟩)
    have htight := potential_eq b hr hc.1 h
    rw [if_neg hout, sub_right_comm] at htight
    rw [hval hc.1 hr h]
    exact sub_eq_zero.mp htight

omit [IsStrictOrderedRing α] in
/-- The potentials amount to the total and the padding. -/
theorem sum_potentials :
    ∑ r ∈ Finset.range (max costs.height costs.width), potential s.rowPotential r +
        ∑ c ∈ Finset.range (max costs.height costs.width), potential s.colPotential c =
      (outcome costs s).total +
        (max costs.height costs.width - min costs.height costs.width) • padding := by
  have hsat := (saturates_workerOf (n := costs.height) (m := costs.width) rfl b.toSettled).pairs
  have hpairs : ∀ x ∈ (workerOf costs.height costs.width s).pairs.toFinset,
      potential s.rowPotential x.1 + potential s.colPotential x.2 = costs.costAt x.1 x.2 := by
    intro x hx
    rcases mem_pairs_iff.mp hx with ⟨hw, hj, hw', hj', hrow⟩
    have h := potential_eq b hw' hj' hrow
    rw [if_pos ⟨hw, hj⟩, sub_sub, sub_eq_zero] at h
    exact h.symm
  -- What is kept amounts to the total, and each cell that is left out to one padding.
  rw [hsat.sum_potentials, Finset.sum_congr rfl hpairs, ← sum_left_out b,
    ← Finset.sum_add_distrib, ← hsat.card_sdiff.2]
  simp only [sub_add_cancel, Finset.sum_const]
  rfl

/-- The kept pairs are cheapest. -/
theorem isCheapest : IsCheapest costs (outcome costs s).workerOf.pairs.toFinset := by
  have hsat := (saturates_workerOf (n := costs.height) (m := costs.width) rfl b.toSettled).pairs
  -- The padding is on both sides of the bound and drops out.
  refine ⟨hsat, fun M' hM' => ?_⟩
  have hbound := hM'.sum_le (u := potential s.rowPotential) (v := potential s.colPotential)
    costs.costAt padding ?_ ?_
  · rw [sum_potentials b] at hbound
    exact le_of_add_le_add_right hbound
  · intro w j hw hj
    have h := potential_le b (Nat.lt_of_lt_of_le hw (le_max_left _ costs.width))
      (Nat.lt_of_lt_of_le hj (le_max_right costs.height _))
    rw [if_pos ⟨hw, hj⟩] at h
    linarith
  · intro r c hr hc hout
    have h := potential_le b hr hc
    rw [if_neg (by omega)] at h
    linarith

end Final

end Padded

/-! ### Rational costs -/

/-- In exact arithmetic the padded search pairs all of the smaller side at the least cost
    that any such pairing has. Costs may be negative or above the padding, as long as the
    cap is above both. -/
theorem solve_cheapest (costs : Grid ℚ) (padding reach : ℚ) (hn : 0 < costs.height)
    (hm : 0 < costs.width) (hpad : padding < reach) (hcost : ∀ i j, costs.get i j < reach) :
    ∃ o, Padded.solve .ofOrder costs costs.height costs.width padding reach = .ok o ∧
      o.workerOf.length = costs.width ∧
      o.workerOf.pairs.length = min costs.height costs.width ∧
      Saturating costs.height costs.width o.workerOf.pairs.toFinset ∧
      o.total = costs.costOf o.workerOf.pairs.toFinset ∧
      ∀ M, Saturating costs.height costs.width M → o.total ≤ costs.costOf M := by
  have hcell : ∀ w j, w < costs.height → j < costs.width → costs.costAt w j < reach :=
    fun w j hw hj => costs.costAt_of_lt hw hj ▸ hcost ⟨w, hw⟩ ⟨j, hj⟩
  rcases Padded.exists_outcome (Nat.ne_of_gt hn) (Nat.ne_of_gt hm) hcell hpad with ⟨s, b, ho⟩
  have hsat := Padded.saturates_workerOf (n := costs.height) (m := costs.width) rfl b.toSettled
  have hcheap := Padded.isCheapest b
  exact ⟨_, ho, hsat.length, hsat.length_pairs, hcheap.saturating, rfl, hcheap.least⟩

/-- Two workers and three jobs at costs of both signs. -/
def mixedCosts : Grid ℚ where
  height := 2
  width := 3
  cells := #v[7, -3, 1 / 2, 6, 7, -1]

theorem solve_cheapest_mixedCosts : (1 : ℚ) < 15 / 2 ∧ (∀ i j, mixedCosts.get i j < 15 / 2) ∧
    ∃ o, Padded.solve .ofOrder mixedCosts 2 3 1 (15 / 2) = .ok o ∧ o.workerOf.length = 3 ∧
      o.workerOf.pairs.length = 2 ∧ Saturating 2 3 o.workerOf.pairs.toFinset ∧
      o.total = mixedCosts.costOf o.workerOf.pairs.toFinset ∧
      ∀ M, Saturating 2 3 M → o.total ≤ mixedCosts.costOf M := by
  have hpad : (1 : ℚ) < 15 / 2 := by decide +kernel
  have hcost : ∀ i j, mixedCosts.get i j < 15 / 2 := by decide +kernel
  exact ⟨hpad, hcost, solve_cheapest mixedCosts 1 (15 / 2) (by decide) (by decide) hpad hcost⟩

/-- For costs that pass the checks, the state after each inserted row is certified by its
    potentials, and so is the outcome: no cell is cheaper than its potentials, kept pairs are
    as expensive, and all potentials together are the total with one padding for each member
    of the larger side that stays unmatched. -/
theorem solve_certified (costs : Grid ℚ) (padding reach : ℚ) (hn : 0 < costs.height)
    (hm : 0 < costs.width) (hpos : 0 < padding) (hreach : padding < reach)
    (hvalid : ∀ i j, 0 ≤ costs.get i j ∧ costs.get i j < padding) :
    (stages .ofOrder (max costs.height costs.width) (Padded.cell costs padding) reach).length =
        max costs.height costs.width ∧
    (∀ k, k < max costs.height costs.width → ∃ stage s,
      (stages .ofOrder (max costs.height costs.width) (Padded.cell costs padding) reach)[k]? =
          some stage ∧
        stage.row.val = k + 1 ∧ stage.state = some s ∧
        Certified (Padded.cell costs padding) s) ∧
    ∃ o, Padded.solve .ofOrder costs costs.height costs.width padding reach = .ok o ∧
      o.rowPotentials.length = max costs.height costs.width ∧
      o.colPotentials.length = max costs.height costs.width ∧
      (∀ i j, ∃ u v, o.rowPotentials[i.val]? = some u ∧ o.colPotentials[j.val]? = some v ∧
        0 ≤ costs.get i j - u - v ∧
        ((i.val, j.val) ∈ o.workerOf.pairs → costs.get i j - u - v = 0)) ∧
      o.rowPotentials.sum + o.colPotentials.sum =
        o.total + |(costs.height : ℚ) - costs.width| * padding := by
  have hcell : ∀ w j, w < costs.height → j < costs.width →
      0 ≤ costs.costAt w j ∧ costs.costAt w j < reach := fun w j hw hj => by
    have h := hvalid ⟨w, hw⟩ ⟨j, hj⟩
    rw [← costs.costAt_of_lt hw hj] at h
    exact ⟨h.1, h.2.trans hreach⟩
  -- The padding lies above all costs and below the cap, so the square is like the table.
  have hbelow := fun r c : Slot (max costs.height costs.width) =>
    Padded.cell_forall (r := r) (c := c) (P := (· < reach)) (fun w j hw hj => (hcell w j hw hj).2)
      hreach
  have hnonneg := fun r c : Slot (max costs.height costs.width) =>
    Padded.cell_forall (r := r) (c := c) (P := (0 ≤ ·)) (fun w j hw hj => (hcell w j hw hj).1)
      (le_of_lt hpos)
  refine ⟨length_stages hbelow, fun k hk => ?_, ?_⟩
  · rcases exists_stage hbelow hk with ⟨stage, s, hstage, hrow, hs, b⟩
    exact ⟨stage, s, hstage, hrow, hs, b.certified hnonneg⟩
  rcases Padded.exists_outcome (Nat.ne_of_gt hn) (Nat.ne_of_gt hm)
    (fun w j hw hj => (hcell w j hw hj).2) hreach with ⟨s, b, ho⟩
  refine ⟨_, ho, length_drop_one _, length_drop_one _, fun i j => ?_, ?_⟩
  · have hi : i.val < max costs.height costs.width := Nat.lt_of_lt_of_le i.isLt (le_max_left _ _)
    have hj : j.val < max costs.height costs.width := Nat.lt_of_lt_of_le j.isLt (le_max_right _ _)
    have hreal : (if i.val < costs.height ∧ j.val < costs.width then costs.costAt i j
        else padding) = costs.get i j := by
      rw [if_pos ⟨i.isLt, j.isLt⟩, costs.costAt_of_lt i.isLt j.isLt]
    refine ⟨_, _, getElem?_drop_one _ hi, getElem?_drop_one _ hj, ?_, fun hpair => ?_⟩
    · rw [← hreal]
      exact Padded.potential_le b hi hj
    · rcases Padded.mem_pairs_iff.mp (List.mem_toFinset.mpr hpair) with ⟨_, _, _, _, hrow⟩
      rw [← hreal]
      exact Padded.potential_eq b hi hj hrow
  · -- The larger side leaves out as many as it is larger.
    have habs : ((max costs.height costs.width - min costs.height costs.width : Nat) : ℚ) =
        |(costs.height : ℚ) - costs.width| := by
      rcases Nat.le_total costs.height costs.width with h | h
      · rw [max_eq_right h, min_eq_left h, Nat.cast_sub h, abs_sub_comm, abs_of_nonneg]
        exact sub_nonneg.mpr (Nat.cast_le.mpr h)
      · rw [max_eq_left h, min_eq_right h, Nat.cast_sub h, abs_of_nonneg]
        exact sub_nonneg.mpr (Nat.cast_le.mpr h)
    rw [← habs, ← nsmul_eq_mul, ← Padded.sum_potentials b]
    exact congrArg₂ (· + ·) (sum_drop_one _) (sum_drop_one _)

/-- Three workers and two jobs, with ties. -/
def tiedCosts : Grid ℚ where
  height := 3
  width := 2
  cells := #v[1, 1, 1 / 2, 1, 0, 1]

theorem solve_certified_tiedCosts :
    (0 : ℚ) < 2 ∧ (2 : ℚ) < 3 ∧ (∀ i j, 0 ≤ tiedCosts.get i j ∧ tiedCosts.get i j < 2) ∧
    (stages .ofOrder 3 (Padded.cell tiedCosts 2) 3).length = 3 ∧
    (∀ k, k < 3 → ∃ stage s, (stages .ofOrder 3 (Padded.cell tiedCosts 2) 3)[k]? = some stage ∧
      stage.row.val = k + 1 ∧ stage.state = some s ∧ Certified (Padded.cell tiedCosts 2) s) ∧
    ∃ o, Padded.solve .ofOrder tiedCosts 3 2 2 3 = .ok o ∧ o.rowPotentials.length = 3 ∧
      o.colPotentials.length = 3 ∧
      (∀ (i : Fin 3) (j : Fin 2), ∃ u v, o.rowPotentials[i.val]? = some u ∧
        o.colPotentials[j.val]? = some v ∧ 0 ≤ tiedCosts.get i j - u - v ∧
        ((i.val, j.val) ∈ o.workerOf.pairs → tiedCosts.get i j - u - v = 0)) ∧
      o.rowPotentials.sum + o.colPotentials.sum = o.total + |((3 : Nat) : ℚ) - (2 : Nat)| * 2 := by
  have hpos : (0 : ℚ) < 2 := by decide +kernel
  have hreach : (2 : ℚ) < 3 := by decide +kernel
  have hvalid : ∀ i j, 0 ≤ tiedCosts.get i j ∧ tiedCosts.get i j < 2 := by decide +kernel
  exact ⟨hpos, hreach, hvalid,
    solve_certified tiedCosts 2 3 (by decide) (by decide) hpos hreach hvalid⟩

end Roster
