import Roster.Proofs.Pairing.Saturating
import Roster.Solver.Method

/-!
# Pairings of the Square

A solver that knows squares only is given a table with zeros around it. Its answer pairs
every row with a column, and only the pairs that lie in the table are kept.

What is kept saturates the table, because all of the smaller side lies in it: the larger
side of the table is a side of the square. What is left out costs nothing. And every
saturating pairing of the table is what is kept of some pairing of the square, as many rows
of the square being without a partner as columns; so a cheapest pairing of the square keeps
a cheapest pairing of the table.

## Theorems

* `Square.costAt_ofGrid`: The square costs what the table costs, and zero around it.
* `Saturating.inside_square`: What is kept of a pairing of the square.
* `Saturating.exists_square`: Every pairing of the table is kept of one of the square.
* `IsCheapest.of_square`: A cheapest pairing of the square keeps a cheapest one.
-/

namespace Roster

namespace Grid

variable {α : Type}

theorem get?_ofFn (height width : Nat) (f : Fin height → Fin width → α) {i j : Nat}
    (hi : i < height) (hj : j < width) :
    (ofFn height width f).get? i j = some (f ⟨i, hi⟩ ⟨j, hj⟩) := by
  have hin : i < (ofFn height width f).height ∧ j < (ofFn height width f).width := ⟨hi, hj⟩
  rw [get?, dif_pos hin]
  exact congrArg some (get_ofFn height width f ⟨i, hi⟩ ⟨j, hj⟩)

theorem get?_eq_none (g : Grid α) {i j : Nat} (h : ¬ (i < g.height ∧ j < g.width)) :
    g.get? i j = none := dif_neg h

theorem get_mem_toList (g : Grid α) (i : Fin g.height) (j : Fin g.width) : g.get i j ∈ g.toList :=
  Vector.mem_toList_iff.mpr (Vector.getElem_mem _)

theorem get?_map {β : Type} (g : Grid α) (f : α → β) (i j : Nat) :
    (g.map f).get? i j = (g.get? i j).map f := by
  by_cases h : i < g.height ∧ j < g.width
  · rw [get?, get?, dif_pos h, dif_pos (show i < (g.map f).height ∧ j < (g.map f).width from h)]
    exact congrArg some (Vector.getElem_map f (position ⟨i, h.1⟩ ⟨j, h.2⟩).isLt)
  · rw [g.get?_eq_none h, (g.map f).get?_eq_none h]
    rfl

theorem isEmpty_iff (g : Grid α) : g.isEmpty = true ↔ g.height = 0 ∨ g.width = 0 := by
  rw [isEmpty, beq_iff_eq, Nat.mul_eq_zero]

theorem costAt_map {β : Type} [AddCommMonoid α] [AddCommMonoid β] {g : Grid α} (f : α → β)
    {i j : Nat} (hi : i < g.height) (hj : j < g.width) :
    (g.map f).costAt i j = f (g.costAt i j) := by
  rw [costAt, costAt, get?_map, get?, dif_pos ⟨hi, hj⟩]
  rfl

/-- Every entry is the cell of a row and a column. -/
theorem exists_get {g : Grid α} {x : α} (h : x ∈ g.cells) : ∃ i j, g.get i j = x := by
  rcases Vector.mem_iff_getElem.mp h with ⟨k, hk, rfl⟩
  have hk' : k < g.width * g.height := Nat.mul_comm g.height g.width ▸ hk
  refine ⟨⟨k / g.width, Nat.div_lt_of_lt_mul hk'⟩,
    ⟨k % g.width, Nat.mod_lt k (width_pos ⟨k, hk⟩)⟩, ?_⟩
  simp only [get, position, Nat.div_add_mod', Fin.getElem_fin]

theorem map_congr {β : Type} {g : Grid α} {f f' : α → β}
    (h : ∀ i j, f (g.get i j) = f' (g.get i j)) : g.map f = g.map f' := by
  refine congrArg (Grid.mk g.height g.width) (Vector.map_congr_left fun x hx => ?_)
  rcases exists_get hx with ⟨i, j, rfl⟩
  exact h i j

theorem costAt_eq_zero [AddCommMonoid α] (g : Grid α) {i j : Nat}
    (h : ¬ (i < g.height ∧ j < g.width)) : g.costAt i j = 0 := by
  rw [costAt, g.get?_eq_none h]
  rfl

end Grid

/-- Cells that become whole numbers make a table of these. -/
theorem Square.wholeCosts_of_some {α : Type} {whole : α → Option Int} {f : α → Int}
    {costs : Grid α} (h : ∀ i j, whole (costs.get i j) = some (f (costs.get i j))) :
    Square.wholeCosts whole costs = .ok (costs.map f) := by
  have hsome : costs.map whole = costs.map fun x => some (f x) := Grid.map_congr h
  have hall : (costs.map fun x => some (f x)).toList.all Option.isSome = true := by
    rw [List.all_eq_true]
    intro c hc
    rw [Grid.toList, Grid.map, Vector.toList_map, List.mem_map] at hc
    rcases hc with ⟨x, _, rfl⟩
    rfl
  have hmap : (costs.map fun x => some (f x)).map (fun c => c.getD 0) = costs.map f := by
    simp only [Grid.map, Vector.map_map]
    rfl
  rw [Square.wholeCosts]
  simp only [hsome, hall, if_true, hmap]

/-- The square costs what the table costs, and zero around it. -/
theorem Square.costAt_ofGrid (g : Grid Int) (i j : Nat) :
    (Square.ofGrid g).costAt i j = g.costAt i j := by
  by_cases h : i < max g.height g.width ∧ j < max g.height g.width
  · rw [Grid.costAt, Square.ofGrid, Grid.get?_ofFn _ _ _ h.1 h.2]
    rfl
  · rw [g.costAt_eq_zero (by omega)]
    exact (Square.ofGrid g).costAt_eq_zero h

namespace Saturating

variable {n m : Nat} {M : Finset (Nat × Nat)}

/-- What is kept of a pairing of the square saturates the table. -/
theorem inside_square (h : Saturating (max n m) (max n m) M) :
    Saturating n m (M.filter fun x => x.1 < n ∧ x.2 < m) := by
  have hmem : ∀ {x}, x ∈ M.filter (fun x => x.1 < n ∧ x.2 < m) → x ∈ M := fun hx =>
    (Finset.mem_filter.mp hx).1
  refine of_full (fun x hx => (Finset.mem_filter.mp hx).2)
    (fun x hx y hy => h.worker_once x (hmem hx) y (hmem hy))
    (fun x hx y hy => h.job_once x (hmem hx) y (hmem hy)) ?_ ?_
  · -- Every column of the square is a job.
    intro hnm w hw
    have hrow : w ∈ M.image Prod.fst := by
      rw [h.image_fst (le_refl _), Finset.mem_range]
      omega
    rcases Finset.mem_image.mp hrow with ⟨x, hx, rfl⟩
    refine ⟨x.2, Finset.mem_filter.mpr ⟨hx, hw, ?_⟩⟩
    have := (h.inside x hx).2
    omega
  · -- Every row of the square is a worker.
    intro hmn j hj
    have hcol : j ∈ M.image Prod.snd := by
      rw [h.image_snd (le_refl _), Finset.mem_range]
      omega
    rcases Finset.mem_image.mp hcol with ⟨x, hx, rfl⟩
    refine ⟨x.1, Finset.mem_filter.mpr ⟨hx, ?_, hj⟩⟩
    have := (h.inside x hx).1
    omega

/-- As many rows as columns can be paired with each other. -/
theorem exists_pairing {D F : Finset Nat} (hcard : D.card = F.card) :
    ∃ R : Finset (Nat × Nat), (∀ x ∈ R, x.1 ∈ D ∧ x.2 ∈ F) ∧
      (∀ x ∈ R, ∀ y ∈ R, x.1 = y.1 → x = y) ∧ (∀ x ∈ R, ∀ y ∈ R, x.2 = y.2 → x = y) ∧
      (∀ r ∈ D, ∃ c, (r, c) ∈ R) ∧ ∀ c ∈ F, ∃ r, (r, c) ∈ R := by
  let e : D ≃ F := Finset.equivOfCardEq hcard
  have hmem : ∀ {x : Nat × Nat}, x ∈ D.attach.image (fun r => (r.val, (e r).val)) ↔
      ∃ r : D, (r.val, (e r).val) = x := by
    intro x
    rw [Finset.mem_image]
    simp only [Finset.mem_attach, true_and]
  refine ⟨D.attach.image fun r => (r.val, (e r).val), ?_, ?_, ?_, ?_, ?_⟩
  · intro x hx
    rcases hmem.mp hx with ⟨r, rfl⟩
    exact ⟨r.2, (e r).2⟩
  · intro x hx y hy heq
    rcases hmem.mp hx with ⟨r, rfl⟩
    rcases hmem.mp hy with ⟨r', rfl⟩
    rw [Subtype.ext (p := (· ∈ D)) heq]
  · intro x hx y hy heq
    rcases hmem.mp hx with ⟨r, rfl⟩
    rcases hmem.mp hy with ⟨r', rfl⟩
    rw [e.injective (Subtype.ext heq)]
  · exact fun r hr => ⟨e ⟨r, hr⟩, hmem.mpr ⟨⟨r, hr⟩, rfl⟩⟩
  · intro c hc
    refine ⟨e.symm ⟨c, hc⟩, hmem.mpr ⟨e.symm ⟨c, hc⟩, ?_⟩⟩
    rw [Equiv.apply_symm_apply]

/-- Two sets of pairs that have no member of a side in common match each of its members once,
    if each of them does. -/
theorem once_union {R : Finset (Nat × Nat)} {side : Nat × Nat → Nat}
    (hM : ∀ x ∈ M, ∀ y ∈ M, side x = side y → x = y)
    (hR : ∀ x ∈ R, ∀ y ∈ R, side x = side y → x = y) (hout : ∀ x ∈ R, side x ∉ M.image side) :
    ∀ x ∈ M ∪ R, ∀ y ∈ M ∪ R, side x = side y → x = y := by
  intro x hx y hy heq
  rcases Finset.mem_union.mp hx with hx | hx
  · rcases Finset.mem_union.mp hy with hy | hy
    · exact hM x hx y hy heq
    · exact absurd (Finset.mem_image.mpr ⟨x, hx, heq⟩) (hout y hy)
  · rcases Finset.mem_union.mp hy with hy | hy
    · exact absurd (Finset.mem_image.mpr ⟨y, hy, heq.symm⟩) (hout x hx)
    · exact hR x hx y hy heq

/-- Every saturating pairing of the table is kept of some pairing of the square. -/
theorem exists_square (h : Saturating n m M) :
    ∃ M', Saturating (max n m) (max n m) M' ∧ M'.filter (fun x => x.1 < n ∧ x.2 < m) = M := by
  -- Rows and columns without a partner are paired with each other in any way.
  rcases exists_pairing (h.card_sdiff.1.trans h.card_sdiff.2.symm)
    with ⟨R, hin, hworker, hjob, hrows, hcols⟩
  have hrow : ∀ x ∈ R, x.1 < max n m ∧ x.1 ∉ M.image Prod.fst := fun x hx =>
    (Finset.mem_sdiff.mp (hin x hx).1).imp_left Finset.mem_range.mp
  have hcol : ∀ x ∈ R, x.2 < max n m ∧ x.2 ∉ M.image Prod.snd := fun x hx =>
    (Finset.mem_sdiff.mp (hin x hx).2).imp_left Finset.mem_range.mp
  refine ⟨M ∪ R, of_full ?_ (once_union h.worker_once hworker fun x hx => (hrow x hx).2)
    (once_union h.job_once hjob fun x hx => (hcol x hx).2) ?_ ?_, ?_⟩
  · intro x hx
    rcases Finset.mem_union.mp hx with hx | hx
    · have := h.inside x hx
      omega
    · exact ⟨(hrow x hx).1, (hcol x hx).1⟩
  · -- A row has a partner in the table, or it is one of the rows that got one here.
    intro _ r hr
    by_cases hmatched : r ∈ M.image Prod.fst
    · rcases Finset.mem_image.mp hmatched with ⟨x, hx, rfl⟩
      exact ⟨x.2, Finset.mem_union_left _ hx⟩
    · rcases hrows r (Finset.mem_sdiff.mpr ⟨Finset.mem_range.mpr hr, hmatched⟩) with ⟨c, hc⟩
      exact ⟨c, Finset.mem_union_right _ hc⟩
  · intro _ c hc
    by_cases hmatched : c ∈ M.image Prod.snd
    · rcases Finset.mem_image.mp hmatched with ⟨x, hx, rfl⟩
      exact ⟨x.1, Finset.mem_union_left _ hx⟩
    · rcases hcols c (Finset.mem_sdiff.mpr ⟨Finset.mem_range.mpr hc, hmatched⟩) with ⟨r, hr⟩
      exact ⟨r, Finset.mem_union_right _ hr⟩
  · -- Where a row and a column without a partner cross, there is no cell of the table.
    ext x
    rw [Finset.mem_filter, Finset.mem_union]
    constructor
    · rintro ⟨hx | hx, hlt⟩
      · exact hx
      · have := h.padding_of_not_mem (hrow x hx).2 (hcol x hx).2
        omega
    · exact fun hx => ⟨Or.inl hx, h.inside x hx⟩

end Saturating

/-- What is left out of a table costs nothing. -/
theorem Grid.costOf_inside {α : Type} [AddCommMonoid α] (g : Grid α) (M : Finset (Nat × Nat)) :
    g.costOf (M.filter fun x => x.1 < g.height ∧ x.2 < g.width) = g.costOf M := by
  refine Finset.sum_filter_of_ne fun x _ hne => ?_
  by_contra hout
  exact hne (g.costAt_eq_zero hout)

/-- A cheapest pairing of the square keeps a cheapest pairing of the table. -/
theorem IsCheapest.of_square {g : Grid Int} {M : Finset (Nat × Nat)}
    (h : IsCheapest (Square.ofGrid g) M) :
    IsCheapest g (M.filter fun x => x.1 < g.height ∧ x.2 < g.width) := by
  have hcost : ∀ M, (Square.ofGrid g).costOf M = g.costOf M := fun M =>
    Finset.sum_congr rfl fun x _ => Square.costAt_ofGrid g x.1 x.2
  refine ⟨Saturating.inside_square h.saturating, fun M' hM' => ?_⟩
  -- The other pairing is compared on the square too, where it costs what it costs.
  rcases hM'.exists_square with ⟨M'', hsat, rfl⟩
  have hle := h.least M'' hsat
  rw [hcost, hcost] at hle
  rw [g.costOf_inside, g.costOf_inside]
  exact hle

end Roster
