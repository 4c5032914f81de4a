import Roster.Proofs.Search.Potential

/-!
# The Balance of a Run

A whole run in exact arithmetic. If no cost of a row reaches the cap, the row can be
inserted and the balance is kept, so all rows can be inserted in turn and every state on
the way is balanced. Nothing else is asked of the costs: they may be negative, and the
cap may be as low as just above the greatest of them.

## Main definitions

* `Underway`: A search that has a column without a row to go to.

## Theorems

* `Underway.step`: It still has one after a step.
* `Balanced.insertRow`: An insertion succeeds and keeps the balance.
* `mem_take_rows`: The rows that are matched after some insertions.
* `stages_get`: A stage inserts its row into the state behind the rows before it.
* `exists_stage`: Every row is inserted, and the state behind it is balanced.
* `length_stages`: There are as many stages as rows.
* `exists_final`: The run ends in a balanced state.
-/

namespace Roster

namespace Search

variable {α : Type} {N : Nat} [CommRing α] [LinearOrder α]
  {cost : Slot N → Slot N → α} {reach : α}

/-- The search for row `i` from a balanced state, in which column `y` has no row and is within
    the cap. -/
structure Underway (cost : Slot N → Slot N → α) (reach : α) (s : State α N) (R : Finset (Slot N))
    (i y : Slot N) (p : Probe α N) : Prop where
  balanced : Balanced cost s R
  fresh : i ∉ R
  column_ne_zero : y ≠ 0
  vacant : s.rowOf[y] = 0
  below : cost i y < reach
  tree : Tree s i p
  explored : Explored cost reach R i p

namespace Underway

variable {s : State α N} {R : Finset (Slot N)} {i y : Slot N} {p : Probe α N}

theorem reaches (w : Underway cost reach s R i y p) (hdone : p.done = false) :
    Probe.Reaches .ofOrder cost p (p.step .ofOrder cost) :=
  w.tree.reaches hdone w.column_ne_zero w.vacant

theorem tree_step (w : Underway cost reach s R i y p) (hdone : p.done = false) :
    Tree s i (p.step .ofOrder cost) :=
  w.tree.of_reaches hdone (w.reaches hdone)

/-- The column without a row stays outside the tree. -/
theorem outside (w : Underway cost reach s R i y p) (hdone : p.done = false) :
    y ∉ (p.step .ofOrder cost).visited :=
  (w.reaches hdone).visited ▸ w.tree.not_mem_of_vacant hdone w.column_ne_zero w.vacant

theorem rowOf_column (w : Underway cost reach s R i y p) : p.rowOf[y] = 0 :=
  (w.tree.rowOf_of_ne w.column_ne_zero).trans w.vacant

theorem start (b : Balanced cost s R) (hi : i ∉ R) (hi0 : i ≠ 0) (hy : y ≠ 0)
    (hvacant : s.rowOf[y] = 0) (hcost : cost i y < reach) :
    Underway cost reach s R i y (Probe.start s i reach) where
  balanced := b
  fresh := hi
  column_ne_zero := hy
  vacant := hvacant
  below := hcost
  tree := Tree.start hi0 b.linked
  explored := Explored.start b hi

variable [IsStrictOrderedRing α]

theorem step (w : Underway cost reach s R i y p) (hdone : p.done = false) :
    Underway cost reach s R i y (p.step .ofOrder cost) :=
  { w with
    tree := w.tree_step hdone
    explored := w.explored.of_reaches w.tree w.balanced.placed w.fresh (w.tree_step hdone)
      (w.reaches hdone) w.column_ne_zero w.rowOf_column (w.outside hdone) w.below }

end Underway

namespace Balanced

variable [IsStrictOrderedRing α] {s : State α N} {R : Finset (Slot N)} {i : Slot N}

/-- The search for a row in exact arithmetic, where it has ended. -/
theorem explored (b : Balanced cost s R) (hi : i ∉ R) (hi0 : i ≠ 0)
    (hcost : ∀ j, j ≠ 0 → cost i j < reach) :
    Explored cost reach R i (Search.insertRow .ofOrder cost reach s i).probe := by
  -- A column without a row stays outside the tree, so every step has one to reach.
  rcases b.placed.exists_vacant hi hi0 with ⟨y, hy, hvacant⟩
  exact (Probe.run_keeps (fun p w hdone => w.step hdone) (N + 1) _
    (Underway.start b hi hi0 hy hvacant (hcost y hy)) (Probe.start_not_done hi0)).explored

/-- An insertion succeeds and keeps the balance. -/
theorem insertRow (b : Balanced cost s R) (hi : i ∉ R) (hi0 : i ≠ 0)
    (hcost : ∀ j, j ≠ 0 → cost i j < reach) :
    ∃ next, (Search.insertRow .ofOrder cost reach s i).state = some next ∧
      Balanced cost next (insert i R) := by
  have e := b.explored hi hi0 hcost
  rcases Tree.insertRow .ofOrder cost reach b.toSettled hi hi0
    with ⟨h, hdone⟩
  rcases e.trail_exists h with ⟨columns, hc, hsub⟩
  have hnext : (Search.insertRow .ofOrder cost reach s i).state = some
      { (Search.insertRow .ofOrder cost reach s i).probe.toState with
        rowOf := flip (Search.insertRow .ofOrder cost reach s i).probe.cameFrom columns
          (Search.insertRow .ofOrder cost reach s i).probe.rowOf } :=
    congrArg (Option.map _) hc
  -- The way back passes tight cells only, so turning it over keeps the balance.
  exact ⟨_, hnext, e.balanced h hi0 hdone hc hsub
    (b.toSettled.insertRow hi hi0 hnext)⟩

end Balanced

/-- The rows that are matched after some insertions are the first ones. -/
theorem mem_take_rows {k : Nat} {r : Slot N} :
    r ∈ ((rows N).take k).toFinset ↔ r ≠ 0 ∧ r.val ≤ k := by
  rw [List.mem_toFinset, List.mem_take_iff_getElem]
  simp only [rows, List.getElem_map, List.getElem_finRange, List.length_map, List.length_finRange]
  constructor
  · rintro ⟨m, hm, rfl⟩
    refine ⟨Fin.succ_ne_zero _, ?_⟩
    simp only [Fin.val_succ, Fin.val_cast]
    omega
  · rintro ⟨hr, hle⟩
    have hpos : 0 < r.val := Nat.pos_of_ne_zero fun h0 => hr (Fin.ext h0)
    have hlt := r.isLt
    refine ⟨r.val - 1, by omega, Fin.ext ?_⟩
    simp only [Fin.val_succ, Fin.val_cast]
    omega

theorem length_rows : (rows N).length = N := by rw [rows, List.length_map, List.length_finRange]

theorem take_rows : (rows N).take N = rows N := List.take_of_length_le (le_of_eq length_rows)

theorem rows_get {k : Nat} (hk : k < N) : (rows N)[k]? = some (Fin.succ ⟨k, hk⟩) := by
  rw [List.getElem?_eq_getElem (length_rows.symm ▸ hk)]
  simp only [rows, List.getElem_map, List.getElem_finRange]
  rfl

theorem succ_not_mem_take {k : Nat} (hk : k < N) :
    Fin.succ ⟨k, hk⟩ ∉ ((rows N).take k).toFinset := by
  rw [mem_take_rows]
  rintro ⟨_, hle⟩
  simp only [Fin.val_succ] at hle
  omega

theorem take_succ_toFinset {k : Nat} (hk : k < N) : ((rows N).take (k + 1)).toFinset =
    insert (Fin.succ ⟨k, hk⟩) ((rows N).take k).toFinset := by
  rw [List.take_add_one, rows_get hk, Option.toList_some, List.toFinset_append, Finset.union_comm]
  rfl

theorem fresh_take (N k : Nat) : Fresh ((rows N).take k) ∅ where
  nodup := (fresh_rows N).nodup.sublist (List.take_sublist k _)
  not_mem := fun i _ => Finset.notMem_empty i
  ne_zero := fun i hi => (fresh_rows N).ne_zero i (List.mem_of_mem_take hi)

variable [IsStrictOrderedRing α]

/-- The first rows can be inserted, and the state behind them is balanced. -/
theorem exists_inserted (hcost : ∀ i j : Slot N, i ≠ 0 → j ≠ 0 → cost i j < reach) (k : Nat) :
    ∃ s, inserted .ofOrder cost reach (State.start .ofOrder N) ((rows N).take k) = some s ∧
      Balanced cost s ((rows N).take k).toFinset := by
  have hstep : ∀ s R i, Balanced cost s R → i ∉ R → i ≠ 0 →
      ∃ next, (insertRow .ofOrder cost reach s i).state = some next ∧
        Balanced cost next (insert i R) :=
    fun s R i b hi hi0 => b.insertRow hi hi0 fun j hj => hcost i j hi0 hj
  have hkeep : ∀ s R i next, Balanced cost s R → i ∉ R → i ≠ 0 →
      (insertRow .ofOrder cost reach s i).state = some next → Balanced cost next (insert i R) := by
    intro s R i next b hi hi0 hnext
    rcases hstep s R i b hi hi0 with ⟨next', hnext', b'⟩
    exact Option.some.inj (hnext.symm.trans hnext') ▸ b'
  rcases inserted_exists hstep _ _ ∅ (Balanced.start cost) (fresh_take N k) with ⟨s, hs⟩
  refine ⟨s, hs, ?_⟩
  have b := inserted_keeps hkeep _ _ ∅ s (Balanced.start cost) (fresh_take N k) hs
  rw [Finset.empty_union] at b
  exact b

omit [CommRing α] [LinearOrder α] [IsStrictOrderedRing α] in
/-- A stage inserts its row into the state behind the rows before it. -/
theorem stages_get {A : Arithmetic α} {k : Nat} (hk : k < N) {before : State α N}
    (h : inserted A cost reach (State.start A N) ((rows N).take k) = some before) :
    (stages A N cost reach)[k]? =
      some (Search.insertRow A cost reach before (Fin.succ ⟨k, hk⟩)) := by
  rw [stages, insertRows_get, h, Option.bind_some, rows_get hk, Option.map_some]

omit [CommRing α] [LinearOrder α] [IsStrictOrderedRing α] in
/-- The state behind some of the first rows is that of the stage of the last of them. -/
theorem exists_stage_of_inserted {A : Arithmetic α} {k : Nat} (hk : k < N) {s : State α N}
    (h : inserted A cost reach (State.start A N) ((rows N).take (k + 1)) = some s) :
    ∃ stage, (stages A N cost reach)[k]? = some stage ∧ stage.row.val = k + 1 ∧
      stage.state = some s := by
  rw [List.take_add_one, rows_get hk, Option.toList_some, inserted_concat] at h
  rcases Option.bind_eq_some_iff.mp h with ⟨before, hbefore, hs⟩
  exact ⟨_, stages_get hk hbefore, rfl, hs⟩

/-- Every row is inserted in its turn, and the state behind it is balanced. -/
theorem exists_stage (hcost : ∀ i j : Slot N, i ≠ 0 → j ≠ 0 → cost i j < reach) {k : Nat}
    (hk : k < N) : ∃ stage s, (stages .ofOrder N cost reach)[k]? = some stage ∧
      stage.row.val = k + 1 ∧ stage.state = some s ∧
      Balanced cost s ((rows N).take (k + 1)).toFinset := by
  rcases exists_inserted hcost (k + 1) with ⟨s, hs, b⟩
  rcases exists_stage_of_inserted hk hs with ⟨stage, hstage, hrow, hstate⟩
  exact ⟨stage, s, hstage, hrow, hstate, b⟩

/-- There are as many stages as rows. -/
theorem length_stages (hcost : ∀ i j : Slot N, i ≠ 0 → j ≠ 0 → cost i j < reach) :
    (stages .ofOrder N cost reach).length = N := by
  -- No stage stands behind the last row, and none is missing before it.
  refine Nat.le_antisymm (List.getElem?_eq_none_iff.mp ?_) (Nat.le_of_not_lt fun hlt => ?_)
  · have hrow : (rows N)[N]? = none := List.getElem?_eq_none_iff.mpr (le_of_eq length_rows)
    rw [stages, insertRows_get, hrow]
    cases inserted .ofOrder cost reach (State.start .ofOrder N) ((rows N).take N) with
    | none => rfl
    | some before => rfl
  · rcases exists_stage hcost hlt with ⟨stage, _, hstage, _⟩
    rw [List.getElem?_eq_none_iff.mpr (Nat.le_refl _)] at hstage
    exact absurd hstage (by simp only [reduceCtorEq, not_false_eq_true])

/-- The run ends in a balanced state, in which all rows are matched. -/
theorem exists_final (hcost : ∀ i j : Slot N, i ≠ 0 → j ≠ 0 → cost i j < reach) :
    ∃ s, final .ofOrder N cost reach = some s ∧ Balanced cost s (rows N).toFinset := by
  rcases exists_inserted hcost (rows N).length with ⟨s, hs, b⟩
  rw [List.take_length] at hs b
  exact ⟨s, (final_eq _ _ _).trans hs, b⟩

end Search

end Roster
