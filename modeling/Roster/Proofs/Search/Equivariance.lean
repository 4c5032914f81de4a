import Mathlib.Algebra.BigOperators.Group.Finset.Basic
import Roster.Proofs.Search.Lockstep

/-!
# Costs That Differ by Rows

Two whole runs whose costs differ by a constant in each row, with any two caps above their
costs. Row by row both reach the same column and hand the same rows back, so the matchings
are the same after each insertion, and so are the potentials of the columns. The potential of
a row that is matched differs by the constant of the row, and nothing else differs but that of
the virtual column, which has paid for all of the constants.

Only links of columns that were not reached may differ, and the way back reads none of them.
That is where exact arithmetic is needed: the way back stays among the columns that were
reached.

## Theorems

* `Shifted.explored`: Two searches for one row end side by side.
* `Shifted.insertRow`: What two states have in common is kept by an insertion.
* `inserted_both`: Invariants for some rows of two runs from those for one row.
* `exists_both_inserted`, `exists_both_stages`, `exists_both_final`: Both runs reach states that
  have it in common.
-/

namespace Roster

namespace Search

variable {α : Type} {N : Nat}

/-- If one insertion into both of two states succeeds and keeps what they have in common, some
    rows can be inserted into both. -/
theorem inserted_both {A : Arithmetic α} {cost cost' : Slot N → Slot N → α} {reach reach' : α}
    {Inv : State α N → State α N → Finset (Slot N) → Prop}
    (hstep : ∀ s s' R i, Inv s s' R → i ∉ R → i ≠ 0 →
      ∃ next next', (insertRow A cost reach s i).state = some next ∧
        (insertRow A cost' reach' s' i).state = some next' ∧ Inv next next' (insert i R)) :
    ∀ (rows : List (Slot N)) (s s' : State α N) (R : Finset (Slot N)), Inv s s' R → Fresh rows R →
      ∃ t t', inserted A cost reach s rows = some t ∧ inserted A cost' reach' s' rows = some t' ∧
        Inv t t' (R ∪ rows.toFinset) := by
  intro rows
  induction rows with
  | nil =>
      intro s s' R hs _
      refine ⟨s, s', rfl, rfl, ?_⟩
      rw [List.toFinset_nil, Finset.union_empty]
      exact hs
  | cons i rest ih =>
      intro s s' R hs hfresh
      rcases hstep s s' R i hs (hfresh.not_mem i List.mem_cons_self)
        (hfresh.ne_zero i List.mem_cons_self) with ⟨next, next', hnext, hnext', hinv⟩
      rcases ih next next' (insert i R) hinv hfresh.tail with ⟨t, t', ht, ht', hinv'⟩
      refine ⟨t, t', ?_, ?_, ?_⟩
      · rw [inserted, hnext, Option.bind_some, ht]
      · rw [inserted, hnext', Option.bind_some, ht']
      · rw [List.toFinset_cons, Finset.union_insert, ← Finset.insert_union]
        exact hinv'

variable [CommRing α] [LinearOrder α] [IsStrictOrderedRing α]
  {cost cost' : Slot N → Slot N → α} {reach reach' : α} {shift : Slot N → α}

section Row

variable {s s' : State α N} {R : Finset (Slot N)} {i : Slot N}

theorem Shifted.explored (h : Shifted shift R s s') (b : Balanced cost s R)
    (b' : Balanced cost' s' R) (hshift : RowsDiffer shift cost cost') (hi : i ∉ R) (hi0 : i ≠ 0)
    (hcost : ∀ j, j ≠ 0 → cost i j < reach) (hcost' : ∀ j, j ≠ 0 → cost' i j < reach') :
    ∃ y, Underway cost reach s R i y (Search.insertRow .ofOrder cost reach s i).probe ∧
      Underway cost' reach' s' R i y (Search.insertRow .ofOrder cost' reach' s' i).probe ∧
      Abreast shift cost cost' R i y (Search.insertRow .ofOrder cost reach s i).probe
        (Search.insertRow .ofOrder cost' reach' s' i).probe := by
  rcases b.placed.exists_vacant hi hi0 with ⟨y, hy, hvacant⟩
  have hstart : Underway cost reach s R i y (Probe.start s i reach) :=
    Underway.start b hi hi0 hy hvacant (hcost y hy)
  have hstart' : Underway cost' reach' s' R i y (Probe.start s' i reach') :=
    Underway.start b' hi hi0 hy (h.rowOf ▸ hvacant) (hcost' y hy)
  -- Both take as many steps, since the one has ended where the other has.
  have hend : ∀ p p' : Probe α N, Abreast shift cost cost' R i y p p' → p'.done = p.done :=
    fun p p' l => by rw [Probe.done, Probe.done, l.rowOf, l.column]
  refine ⟨y, Probe.run_keeps_both (P := fun p p' => Underway cost reach s R i y p ∧
    Underway cost' reach' s' R i y p' ∧ Abreast shift cost cost' R i y p p')
    (fun p p' hp => hend p p' hp.2.2) ?_ (N + 1) _ _
    ⟨hstart, hstart', Abreast.start h hstart hstart'⟩ (Probe.start_not_done hi0)⟩
  rintro p p' ⟨w, w', l⟩ hdone
  have hdone' : p'.done = false := (hend p p' l).trans hdone
  exact ⟨w.step hdone, w'.step hdone', l.step hshift w w' hdone hdone'⟩

/-- Two searches for one row end in the same column, and what the states behind them have in
    common includes the new row. -/
theorem Shifted.insertRow (h : Shifted shift R s s') (b : Balanced cost s R)
    (b' : Balanced cost' s' R) (hshift : RowsDiffer shift cost cost') (hi : i ∉ R) (hi0 : i ≠ 0)
    (hcost : ∀ j, j ≠ 0 → cost i j < reach) (hcost' : ∀ j, j ≠ 0 → cost' i j < reach') :
    ∃ next next', (Search.insertRow .ofOrder cost reach s i).state = some next ∧
      (Search.insertRow .ofOrder cost' reach' s' i).state = some next' ∧
      (Search.insertRow .ofOrder cost' reach' s' i).probe.column =
        (Search.insertRow .ofOrder cost reach s i).probe.column ∧
      Balanced cost next (insert i R) ∧ Balanced cost' next' (insert i R) ∧
      Shifted shift (insert i R) next next' := by
  rcases h.explored b b' hshift hi hi0 hcost hcost' with ⟨y, w, w', l⟩
  have hdone := (Tree.insertRow .ofOrder cost reach b.toSettled hi hi0).2
  rcases b.insertRow hi hi0 hcost with ⟨next, hnext, bnext⟩
  rcases b'.insertRow hi hi0 hcost' with ⟨next', hnext', bnext'⟩
  refine ⟨next, next', hnext, hnext', l.column, bnext, bnext', ?_⟩
  rcases insertRow_state hnext with ⟨columns, hc, rfl⟩
  rcases insertRow_state hnext' with ⟨columns', hc', rfl⟩
  -- The way back stays among the columns that were reached, where the links are the same.
  have hlink : ∀ x ∈ columns,
      (Search.insertRow .ofOrder cost' reach' s' i).probe.cameFrom[x] =
        (Search.insertRow .ofOrder cost reach s i).probe.cameFrom[x] := by
    intro x hx
    rcases w.explored.trail_exists w.tree with ⟨reached, hreached, hsub⟩
    rw [trail_unique hc hreached] at hx
    exact l.link x (hsub hx) (trail_suffix hreached hx).1
  have hcolumns : columns' = columns := by
    have hback := trail_congr hc hlink
    rw [← l.column] at hback
    exact trail_unique hc' hback
  have hgap : gap (shift i) (Search.insertRow .ofOrder cost reach s i).probe = 0 :=
    if_neg (w.tree.visited_ne_nil_of_done hi0 hdone)
  refine ⟨?_, fun r hr => ?_, l.colPotential, ?_⟩
  · rw [hcolumns, flip_congr hlink, l.rowOf]
  · rcases Finset.mem_insert.mp hr with rfl | hr
    · have hnew := l.newRow
      rw [hgap, add_zero] at hnew
      exact hnew
    · exact l.rowPotential r hr
  · have hvirtual := l.virtual
    rw [hgap, add_zero, add_assoc, add_comm (∑ r ∈ R, shift r)] at hvirtual
    rw [Finset.sum_insert hi]
    exact hvirtual

end Row

/-! ### All rows in turn -/

section Run

variable (hshift : RowsDiffer shift cost cost')
  (hcost : ∀ i j : Slot N, i ≠ 0 → j ≠ 0 → cost i j < reach)
  (hcost' : ∀ i j : Slot N, i ≠ 0 → j ≠ 0 → cost' i j < reach')

include hshift hcost hcost'

theorem exists_both_inserted (k : Nat) :
    ∃ s s', inserted .ofOrder cost reach (State.start .ofOrder N) ((rows N).take k) = some s ∧
      inserted .ofOrder cost' reach' (State.start .ofOrder N) ((rows N).take k) = some s' ∧
      Balanced cost s ((rows N).take k).toFinset ∧ Balanced cost' s' ((rows N).take k).toFinset ∧
      Shifted shift ((rows N).take k).toFinset s s' := by
  have hstep : ∀ (s s' : State α N) (R : Finset (Slot N)) (i : Slot N),
      Balanced cost s R ∧ Balanced cost' s' R ∧ Shifted shift R s s' → i ∉ R → i ≠ 0 →
      ∃ next next', (insertRow .ofOrder cost reach s i).state = some next ∧
        (insertRow .ofOrder cost' reach' s' i).state = some next' ∧
        Balanced cost next (insert i R) ∧ Balanced cost' next' (insert i R) ∧
        Shifted shift (insert i R) next next' := by
    rintro s s' R i ⟨b, b', h⟩ hi hi0
    rcases h.insertRow b b' hshift hi hi0 (fun j hj => hcost i j hi0 hj)
      (fun j hj => hcost' i j hi0 hj) with ⟨next, next', hnext, hnext', _, hkeep⟩
    exact ⟨next, next', hnext, hnext', hkeep⟩
  rcases inserted_both hstep _ _ _ ∅
    ⟨Balanced.start cost, Balanced.start cost', Shifted.start shift _⟩ (fresh_take N k)
    with ⟨s, s', hs, hs', hkeep⟩
  rw [Finset.empty_union] at hkeep
  exact ⟨s, s', hs, hs', hkeep⟩

/-- Every row is inserted in its turn in both runs, which reach the same column for it. -/
theorem exists_both_stages {k : Nat} (hk : k < N) :
    ∃ stage stage' s s', (stages .ofOrder N cost reach)[k]? = some stage ∧
      (stages .ofOrder N cost' reach')[k]? = some stage' ∧
      stage.row.val = k + 1 ∧ stage'.row.val = k + 1 ∧
      stage.state = some s ∧ stage'.state = some s' ∧
      stage'.probe.column = stage.probe.column ∧
      Balanced cost s ((rows N).take (k + 1)).toFinset ∧
      Balanced cost' s' ((rows N).take (k + 1)).toFinset ∧
      Shifted shift ((rows N).take (k + 1)).toFinset s s' := by
  rcases exists_both_inserted hshift hcost hcost' k with ⟨before, before', hs, hs', b, b', h⟩
  rcases h.insertRow b b' hshift (succ_not_mem_take hk) (Fin.succ_ne_zero _)
    (fun j hj => hcost _ j (Fin.succ_ne_zero _) hj) (fun j hj => hcost' _ j (Fin.succ_ne_zero _) hj)
    with ⟨next, next', hnext, hnext', hcolumn, hkeep⟩
  exact ⟨_, _, next, next', stages_get hk hs, stages_get hk hs', rfl, rfl, hnext, hnext', hcolumn,
    take_succ_toFinset hk ▸ hkeep⟩

theorem exists_both_final :
    ∃ s s', final .ofOrder N cost reach = some s ∧ final .ofOrder N cost' reach' = some s' ∧
      Balanced cost s (rows N).toFinset ∧ Balanced cost' s' (rows N).toFinset ∧
      Shifted shift (rows N).toFinset s s' := by
  rcases exists_both_inserted hshift hcost hcost' (rows N).length with ⟨s, s', hs, hs', hkeep⟩
  rw [List.take_length] at hs hs' hkeep
  exact ⟨s, s', (final_eq _ _ _).trans hs, (final_eq _ _ _).trans hs', hkeep⟩

end Run

end Search

end Roster
