import Roster.Proofs.Search.Course
import Roster.Proofs.Search.Prefix

/-!
# Augmenting Along Fresh Links

When a search has ended, its way back hands rows on, and what comes of that is told here column
by column: every column that held a row holds one again, the column at which the search ended
holds one now, and so the new row has come in while no other went out. Which row a column holds
changes along the whole way, but which columns hold rows changes in one place only.

For this the way back has to stay among the columns of the search. In exact arithmetic it does,
as every column that a search reaches was improved by it. The link that counts is the one of the
last improvement: it was written by a step of this search, which came from a column that it had
met before. Nothing that an earlier row has left is followed, although much of it is still there
whenever reduced costs exceed the cap.

## Main definitions

* `LinkedBefore`: A column whose link was written before the search reached it.
* `Augments`: What an insertion does to rows and columns.
* `TightWayBack`: The way back of a search in exact arithmetic.

## Theorems

* `LinksAfresh.exists_augments`: An insertion along fresh links brings in one row and one column.
* `Course.linkedBefore`: In exact arithmetic every reached column was linked before.
* `Balanced.exists_tightWayBack`: The way back goes along tight cells.
* `stages_augment`: So it is for every row of a run.
-/

namespace Roster

namespace Search

section

variable {α : Type} {N : Nat} {A : Arithmetic α} {cost : Slot N → Slot N → α} {reach : α}
  {s : State α N} {R : Finset (Slot N)} {i : Slot N}

/-- One of the first `n` steps of the search for row `i` reached column `x`, and an earlier one
    improved it. The link of `x` is from this earlier step and leads to the column it came from. -/
def LinkedBefore (A : Arithmetic α) (cost : Slot N → Slot N → α) (reach : α) (s : State α N)
    (i : Slot N) (n : Nat) (x : Slot N) : Prop :=
  ∃ u ≤ n, ∃ t < u, (Probe.after A cost reach s i u).column = x ∧
    (Probe.after A cost reach s i t).enter.improves A cost x = true ∧
    (Probe.after A cost reach s i n).cameFrom[x] = (Probe.after A cost reach s i t).column

/-- From `before` to `next`, row `i` comes in and `column` gets a row. All rows that were matched
    still are, and so are all columns. -/
structure Augments (before next : State α N) (i column : Slot N) : Prop where
  newRow : ∀ j : Slot N, j ≠ 0 → before.rowOf[j] ≠ i
  newColumn : column ≠ 0 ∧ before.rowOf[column] = 0
  rows : ∀ r : Slot N, r ≠ 0 → ((∃ j : Slot N, j ≠ 0 ∧ next.rowOf[j] = r) ↔
    r = i ∨ ∃ j : Slot N, j ≠ 0 ∧ before.rowOf[j] = r)
  columns : ∀ j : Slot N, j ≠ 0 → (next.rowOf[j] ≠ 0 ↔ j = column ∨ before.rowOf[j] ≠ 0)
  once : ∀ j k : Slot N, j ≠ 0 → k ≠ 0 → next.rowOf[j] = next.rowOf[k] → next.rowOf[j] ≠ 0 → j = k

/-- A column holds a row after an insertion if it held one before or is the one at which the
    search ended. -/
theorem Tree.flip_ne_zero_iff {p : Probe α N} (h : Tree s i p) (hcolumn : p.column ≠ 0)
    {columns : List (Slot N)} (hc : trail p.cameFrom N p.column = some columns)
    (hsub : columns ⊆ p.column :: p.visited) {j : Slot N} (hj : j ≠ 0) :
    (flip p.cameFrom columns p.rowOf)[j] ≠ 0 ↔ j = p.column ∨ s.rowOf[j] ≠ 0 := by
  rcases trail_eq_cons hc hcolumn with ⟨_, rest, _, hcons, _⟩
  by_cases hjc : j ∈ columns
  · -- A column of the way back is handed a row, and it had one unless the search ended there.
    rw [(flip_get hc _ j).1 hjc]
    refine iff_of_true (h.linked j _ rfl) ?_
    rcases List.mem_cons.mp (hsub hjc) with heq | hmem
    · exact Or.inl heq
    · exact Or.inr (h.rowOf_of_ne hj ▸ h.occupied j hmem)
  · rw [(flip_get hc _ j).2 hjc, h.rowOf_of_ne hj]
    refine ⟨Or.inr, fun hrow => hrow.resolve_left fun heq => hjc ?_⟩
    rw [heq, hcons]
    exact List.mem_cons_self

/-- An insertion along fresh links succeeds, brings in its row, and gives a row to the column at
    which the search ended. -/
theorem LinksAfresh.exists_augments (hs : Settled s R) (hi : i ∉ R) (hi0 : i ≠ 0)
    (h : LinksAfresh A cost reach s i) :
    ∃ next, (insertRow A cost reach s i).state = some next ∧
      Augments s next i (insertRow A cost reach s i).probe.column := by
  rcases h.exists_trail hs hi hi0 with ⟨columns, hc, hsub⟩
  rcases Tree.insertRow A cost reach hs hi hi0 with ⟨htree, hdone⟩
  have hnext : (insertRow A cost reach s i).state = some
      { (insertRow A cost reach s i).probe.toState with
        rowOf := flip (insertRow A cost reach s i).probe.cameFrom columns
          (insertRow A cost reach s i).probe.rowOf } := congrArg (Option.map _) hc
  -- That the rows stay placed is known already. What is left is which columns have one.
  have hsettled := hs.insertRow hi hi0 hnext
  have hcolumn := htree.column_ne_zero hi0 hdone
  refine ⟨_, hnext, ?_, ⟨hcolumn, ?_⟩, fun r hr => ?_,
    fun j hj => htree.flip_ne_zero_iff hcolumn hc hsub hj, hsettled.placed.once⟩
  · intro j hj hji
    exact hi (hji ▸ hs.placed.rowOf_mem hj (hji ▸ hi0))
  · rw [← htree.rowOf_of_ne hcolumn]
    exact Probe.done_iff.mp hdone
  · have hafter := hsettled.placed.mem_iff r
    have hbefore := hs.placed.mem_iff r
    rw [Finset.mem_insert, hbefore] at hafter
    simp only [hr, ne_eq, not_false_eq_true, true_and] at hafter
    exact hafter.symm

end

/-! ### Exact arithmetic -/

section

variable {α : Type} {N : Nat} [CommRing α] [LinearOrder α] [IsStrictOrderedRing α]
  {cost : Slot N → Slot N → α} {reach : α} {s : State α N} {R : Finset (Slot N)} {i : Slot N}
  {n : Nat}

/-- Every column that a search reaches was linked before, by a step of this search. -/
theorem Course.linkedBefore (h : Course .ofOrder cost reach s R i n) (b : Balanced cost s R)
    (hcost : ∀ j, j ≠ 0 → cost i j < reach) {x : Slot N}
    (hx : x ∈ (Probe.after .ofOrder cost reach s i n).column ::
      (Probe.after .ofOrder cost reach s i n).visited) (hx0 : x ≠ 0) :
    LinkedBefore .ofOrder cost reach s i n x := by
  -- A column of the tree was reached by some step, which need not be the last.
  have hreached : ∃ u ≤ n, (Probe.after .ofOrder cost reach s i u).column = x := by
    rcases List.mem_cons.mp hx with heq | hmem
    · exact ⟨n, le_rfl, heq.symm⟩
    · rcases h.mem_visited_iff.mp hmem with ⟨u, hu, heq⟩
      exact ⟨u, hu.le, heq⟩
  rcases hreached with ⟨u, hu, rfl⟩
  have hu' := h.mono hu
  -- The steps up to this one have improved the column, or it would not be the nearest.
  have himproved := hu'.moment.reached_mem b h.fresh h.row_ne_zero hcost _ List.mem_cons_self hx0
  rcases hu'.exists_link himproved with ⟨t, ht, himp, hlink⟩
  exact ⟨u, hu, t, ht, rfl, himp, (h.cameFrom_eq hu).trans hlink⟩

/-- The search for row `i` from state `s` ends after `n` steps, and its way back passes
    `columns`. -/
structure TightWayBack (cost : Slot N → Slot N → α) (reach : α) (s : State α N) (i : Slot N)
    (n : Nat) (columns : List (Slot N)) : Prop where
  ends : Probe.EndsAfter .ofOrder cost reach s i n
  probe_eq : (insertRow .ofOrder cost reach s i).probe = Probe.after .ofOrder cost reach s i n
  linked : ∀ x ∈ (insertRow .ofOrder cost reach s i).probe.column ::
    (insertRow .ofOrder cost reach s i).probe.visited, x ≠ 0 →
      LinkedBefore .ofOrder cost reach s i n x
  /-- The way back comes to the virtual column. -/
  trail_eq : trail (insertRow .ofOrder cost reach s i).probe.cameFrom N
    (insertRow .ofOrder cost reach s i).probe.column = some columns
  nodup : columns.Nodup
  reached : columns ⊆ (insertRow .ofOrder cost reach s i).probe.column ::
    (insertRow .ofOrder cost reach s i).probe.visited
  tight : ∀ x ∈ columns,
    Probe.reduced .ofOrder cost (insertRow .ofOrder cost reach s i).probe.toState
    (insertRow .ofOrder cost reach s i).probe.rowOf[
      (insertRow .ofOrder cost reach s i).probe.cameFrom[x]] x = 0

theorem Balanced.exists_tightWayBack (b : Balanced cost s R) (hi : i ∉ R) (hi0 : i ≠ 0)
    (hcost : ∀ j, j ≠ 0 → cost i j < reach) :
    ∃ n columns, TightWayBack cost reach s i n columns := by
  rcases exists_course .ofOrder cost reach b.toSettled hi hi0 with ⟨n, hcourse, hends, hprobe⟩
  rcases (b.linksAfresh hi hi0 hcost).exists_trail b.toSettled hi hi0 with ⟨columns, hc, hsub⟩
  have e := b.explored hi hi0 hcost
  exact ⟨n, columns, {
    ends := hends
    probe_eq := hprobe
    linked := fun x hx hx0 => hcourse.linkedBefore b hcost (hprobe ▸ hx) hx0
    trail_eq := hc
    nodup := trail_nodup hc
    reached := hsub
    tight := fun x hx => e.link_tight (hsub hx) (trail_suffix hc hx).1 }⟩

end

/-! ### Rational costs -/

/-- For every row of a run, the way back follows links that were written by the search for this
    row, each to a column met before, and along tight cells. So all matched cells are tight after
    the insertion, and row `i` and the column at which its search ended have come in while the rows
    before it and their columns stay matched. Costs may have any sign, as long as they are below
    the cap. -/
theorem stages_augment {N : Nat} (cost : Slot N → Slot N → ℚ) (reach : ℚ)
    (hcost : ∀ r j, r ≠ 0 → j ≠ 0 → cost r j < reach) :
    ∀ i : Slot N, i ≠ 0 → ∃ before next n columns,
      inserted .ofOrder cost reach (State.start .ofOrder N) ((rows N).take (i.val - 1)) =
        some before ∧
      (stages .ofOrder N cost reach)[i.val - 1]? = some (insertRow .ofOrder cost reach before i) ∧
      TightWayBack cost reach before i n columns ∧
      (insertRow .ofOrder cost reach before i).state = some next ∧
      (∀ j r : Slot N, j ≠ 0 → next.rowOf[j] = r → r ≠ 0 →
        Probe.reduced .ofOrder cost next r j = 0) ∧
      (∀ r : Slot N, (r ≠ 0 ∧ ∃ j : Slot N, j ≠ 0 ∧ before.rowOf[j] = r) ↔
        1 ≤ r.val ∧ r.val ≤ i.val - 1) ∧
      Augments before next i (insertRow .ofOrder cost reach before i).probe.column := by
  intro i hi0
  rcases exists_inserted hcost (i.val - 1) with ⟨before, hbefore, b⟩
  have hcosts : ∀ j, j ≠ 0 → cost i j < reach := fun j hj => hcost i j hi0 hj
  rcases b.exists_tightWayBack not_mem_take hi0 hcosts with ⟨n, columns, hway⟩
  rcases (b.linksAfresh not_mem_take hi0 hcosts).exists_augments b.toSettled not_mem_take hi0
    with ⟨next, hnext, haugments⟩
  -- The state behind the insertion is one, however it was come by: balanced, and augmented.
  rcases b.insertRow not_mem_take hi0 hcosts with ⟨next', hnext', b'⟩
  rcases Option.some.inj (hnext'.symm.trans hnext) with rfl
  refine ⟨before, next', n, columns, hbefore, stage_of_inserted hi0 hbefore, hway, hnext, b'.tight,
    fun r => ?_, haugments⟩
  rw [← b.placed.mem_iff r, mem_take_rows, ne_eq, Fin.ext_iff, Fin.val_zero]
  omega

/-- Each of these rows takes the last column and pushes those before it one column back, and most
    reduced costs exceed the cap meanwhile. -/
theorem stages_augment_pushedCosts :
    (∀ r j : Slot 3, r ≠ 0 → j ≠ 0 → pushedCosts r j < 1) ∧ (3 : Slot 3) ≠ 0 ∧
    ∃ before next n columns,
      inserted .ofOrder pushedCosts 1 (State.start .ofOrder 3) ((rows 3).take 2) = some before ∧
      (stages .ofOrder 3 pushedCosts 1)[2]? = some (insertRow .ofOrder pushedCosts 1 before 3) ∧
      TightWayBack pushedCosts 1 before 3 n columns ∧
      (insertRow .ofOrder pushedCosts 1 before 3).state = some next ∧
      (∀ j r : Slot 3, j ≠ 0 → next.rowOf[j] = r → r ≠ 0 →
        Probe.reduced .ofOrder pushedCosts next r j = 0) ∧
      (∀ r : Slot 3, (r ≠ 0 ∧ ∃ j : Slot 3, j ≠ 0 ∧ before.rowOf[j] = r) ↔
        1 ≤ r.val ∧ r.val ≤ 2) ∧
      Augments before next 3 (insertRow .ofOrder pushedCosts 1 before 3).probe.column := by
  have hcost : ∀ r j : Slot 3, r ≠ 0 → j ≠ 0 → pushedCosts r j < 1 := by decide +kernel
  have hrow : (3 : Slot 3) ≠ 0 := by decide
  exact ⟨hcost, hrow, stages_augment pushedCosts 1 hcost 3 hrow⟩

end Search

end Roster
