import Roster.Proofs.Search.Freshness

/-!
# The Course of a Search

A search is a loop without a bound of its own, and `Probe.run` has one. Here the steps are
counted instead: `Probe.after` takes so many of them, whether or not the search should have
ended, and `Probe.EndsAfter` says where the loop is left. The bound of `Probe.run` is never met,
so both come to the same column.

What limits the count is the matching and nothing else. Every step but the last goes to a column
that holds a row, no column is met twice, and before row `i` comes in only the rows before it
are matched. That needs no law of arithmetic: a step may choose badly, but it cannot choose a
column of the tree, and a column without a row is always left to choose.

The rows of the tree are distinct as well, since each stands in one column. A step that raises
all of them at once does the same as one that raises them one by one.

## Main definitions

* `Probe.after`: A search after some of its steps.
* `Probe.EndsAfter`: Where the loop of a search is left.
* `Course`: The course of a search for a row, so far as it goes.
* `Probe.RaisesRows`: What a step does to rows.

## Theorems

* `Probe.exists_iterate`: A search that ends is left behind some step.
* `Course.visited_eq`: The tree is made of the columns that the steps came from.
* `Course.le_card`: A search has no more steps than there are rows to meet.
* `Course.cameFrom_eq`: A reached column keeps its link.
* `Course.exists_link`: The link of an improved column is from the last step that improved it.
* `stage_of_inserted`: The stage of a row.
* `insertRow_finds_vacant`: Every search ends at a column without a row, whatever the arithmetic
  does.
-/

namespace Roster

namespace Search

variable {α : Type} {N : Nat} {A : Arithmetic α} {cost : Slot N → Slot N → α} {reach : α}

namespace Probe

/-- The search for row `i` from state `s` after `t` steps. -/
def after (A : Arithmetic α) (cost : Slot N → Slot N → α) (reach : α) (s : State α N) (i : Slot N)
    (t : Nat) : Probe α N :=
  (fun p => p.step A cost)^[t] (start s i reach)

theorem after_succ (s : State α N) (i : Slot N) (t : Nat) :
    after A cost reach s i (t + 1) = (after A cost reach s i t).step A cost :=
  Function.iterate_succ_apply' _ _ _

/-- The loop of the search for row `i` from state `s` is left after `n` steps, since there it is
    at a column without a row for the first time. -/
structure EndsAfter (A : Arithmetic α) (cost : Slot N → Slot N → α) (reach : α) (s : State α N)
    (i : Slot N) (n : Nat) : Prop where
  ended : (after A cost reach s i n).done = true
  going : ∀ t < n, (after A cost reach s i t).done = false

/-- A search that has ended within its bound has made some steps, and none after it ended. -/
theorem exists_iterate (fuel : Nat) (first : Probe α N) (hopen : first.done = false)
    (hend : (first.run A cost fuel).done = true) :
    ∃ n, (∀ t < n, ((fun p => p.step A cost)^[t] first).done = false) ∧
      first.run A cost fuel = (fun p => p.step A cost)^[n] first := by
  induction fuel generalizing first with
  | zero => exact absurd hend (Bool.eq_false_iff.mp hopen)
  | succ fuel ih =>
      -- The loop asks whether it is done behind each step, and has asked before the first.
      by_cases hnext : (first.step A cost).done = true
      · refine ⟨1, fun t ht => ?_, ?_⟩
        · rw [Nat.lt_one_iff.mp ht]
          exact hopen
        · simp only [run, if_pos hnext]
          rfl
      · have hrun : first.run A cost (fuel + 1) = (first.step A cost).run A cost fuel := by
          simp only [run, if_neg hnext]
        rw [hrun] at hend ⊢
        rcases ih _ (Bool.not_eq_true _ ▸ hnext) hend with ⟨n, hgoing, heq⟩
        refine ⟨n + 1, fun t ht => ?_, heq⟩
        cases t with
        | zero => exact hopen
        | succ t => exact hgoing t (Nat.lt_of_succ_lt_succ ht)

/-- The columns that the first steps of the search for row `i` from state `s` improve. -/
def improvedBy (A : Arithmetic α) (cost : Slot N → Slot N → α) (reach : α) (s : State α N)
    (i : Slot N) : Nat → Finset (Slot N)
  | 0 => ∅
  | t + 1 => improvedBy A cost reach s i t ∪ (after A cost reach s i t).improvedNow A cost

/-- What a step from `p` to `q` does to rows, of which those up to `last` are in the search. -/
structure RaisesRows (A : Arithmetic α) (cost : Slot N → Slot N → α) (p q : Probe α N)
    (last : Nat) : Prop where
  /-- There is a column to choose. -/
  choice : outside p.enter.visited ≠ []
  distinct : (q.visited.map fun j => q.rowOf[j]).Nodup
  inRange : ∀ r ∈ q.visited.map (fun j => q.rowOf[j]), 1 ≤ r.val ∧ r.val ≤ last
  /-- To raise the rows of the tree one by one, in any order, does the same. -/
  once : ∀ columns : List (Slot N), columns.Perm q.visited → ∀ r : Slot N, q.rowPotential[r] =
    ((columns.map fun j => q.rowOf[j]).foldl (fun u r => put u r (A.add u[r] (price A cost p q)))
      p.rowPotential)[r]

end Probe

/-- The course of the search for row `i` from state `s`, which has not ended within its first `t`
    steps, or only with the last of them. -/
structure Course (A : Arithmetic α) (cost : Slot N → Slot N → α) (reach : α) (s : State α N)
    (R : Finset (Slot N)) (i : Slot N) (t : Nat) : Prop where
  settled : Settled s R
  fresh : i ∉ R
  row_ne_zero : i ≠ 0
  going : ∀ k < t, (Probe.after A cost reach s i k).done = false

namespace Course

variable {s : State α N} {R : Finset (Slot N)} {i : Slot N} {t u : Nat}

theorem mono (h : Course A cost reach s R i t) (hut : u ≤ t) : Course A cost reach s R i u :=
  { h with going := fun k hk => h.going k (hk.trans_le hut) }

/-- A step that goes on is counted among the moments of the search. -/
theorem moment (h : Course A cost reach s R i t) :
    Probe.Moment A cost (Probe.start s i reach) (Probe.after A cost reach s i t)
      (Probe.improvedBy A cost reach s i t) := by
  induction t with
  | zero => exact .outset
  | succ t ih =>
      rw [Probe.after_succ]
      exact .next (ih (h.mono (Nat.le_succ t))) (h.going t (Nat.lt_succ_self t))

theorem tree (h : Course A cost reach s R i t) :
    Tree s i (Probe.after A cost reach s i t) :=
  h.moment.tree h.settled h.fresh h.row_ne_zero

theorem reaches (h : Course A cost reach s R i (t + 1)) :
    Probe.Reaches A cost (Probe.after A cost reach s i t)
      (Probe.after A cost reach s i (t + 1)) := by
  rw [Probe.after_succ]
  exact (h.mono (Nat.le_succ t)).moment.reaches h.settled h.fresh h.row_ne_zero
    (h.going t (Nat.lt_succ_self t))

/-- The tree is made of the columns that the steps came from, the latest first. -/
theorem visited_eq (h : Course A cost reach s R i t) :
    (Probe.after A cost reach s i t).visited =
      ((List.range t).map fun k =>
        (Probe.after A cost reach s i k).column).reverse := by
  induction t with
  | zero => rfl
  -- A step takes in the column that it comes from, not the one that it goes to.
  | succ t ih =>
      rw [h.reaches.visited, ih (h.mono (Nat.le_succ t)), List.range_succ, List.map_append,
        List.reverse_append]
      rfl

theorem length_visited (h : Course A cost reach s R i t) :
    (Probe.after A cost reach s i t).visited.length = t := by
  rw [h.visited_eq, List.length_reverse, List.length_map, List.length_range]

theorem mem_visited_iff (h : Course A cost reach s R i t) {x : Slot N} :
    x ∈ (Probe.after A cost reach s i t).visited ↔
      ∃ k < t, (Probe.after A cost reach s i k).column = x := by
  rw [h.visited_eq, List.mem_reverse, List.mem_map]
  simp only [List.mem_range]

/-- The rows of the tree stand in one column each. -/
theorem nodup_rows (h : Course A cost reach s R i t) :
    ((Probe.after A cost reach s i t).visited.map fun j =>
      (Probe.after A cost reach s i t).rowOf[j]).Nodup :=
  (List.nodup_cons.mp h.tree.nodup).2.map_on fun x hx _ _ heq =>
    h.tree.once h.settled.placed h.fresh heq (h.tree.occupied x hx)

/-- They are the new row and matched ones. -/
theorem row_mem (h : Course A cost reach s R i t) {r : Slot N}
    (hr : r ∈ (Probe.after A cost reach s i t).visited.map fun j =>
      (Probe.after A cost reach s i t).rowOf[j]) : r ≠ 0 ∧ r ∈ insert i R := by
  rcases List.mem_map.mp hr with ⟨x, hx, rfl⟩
  have hrow := h.tree.occupied x hx
  exact ⟨hrow, Finset.mem_insert.mpr (h.tree.row_mem h.settled.placed hrow).symm⟩

/-- A step goes to a new row each time, so there are not more steps than rows to go to. -/
theorem le_card (h : Course A cost reach s R i t) : t ≤ R.card + 1 := by
  -- As many distinct rows as steps, all of them the new one or matched.
  have hsub : ((Probe.after A cost reach s i t).visited.map fun j =>
      (Probe.after A cost reach s i t).rowOf[j]).toFinset ⊆ insert i R :=
    fun r hr => (h.row_mem (List.mem_toFinset.mp hr)).2
  have hle := Finset.card_le_card hsub
  rw [List.toFinset_card_of_nodup h.nodup_rows, List.length_map, h.length_visited,
    Finset.card_insert_of_notMem h.fresh] at hle
  exact hle

/-! ### Rows of the tree -/

theorem foldl_put (A : Arithmetic α) (delta : α) {rows : List (Slot N)} (hrows : rows.Nodup)
    (v : Vector α (N + 1)) (r : Slot N) :
    (rows.foldl (fun u r => put u r (A.add u[r] delta)) v)[r] =
      if r ∈ rows then A.add v[r] delta else v[r] := by
  induction rows generalizing v with
  | nil => rw [List.foldl_nil, if_neg List.not_mem_nil]
  | cons r' rest ih =>
      rcases List.nodup_cons.mp hrows with ⟨hfresh, hrest⟩
      rw [List.foldl_cons, ih hrest, put_get]
      by_cases hr : r' = r
      · -- The first row does not come again, so nothing else is added to it.
        subst hr
        rw [if_neg hfresh, if_pos rfl, if_pos List.mem_cons_self]
      · rw [if_neg hr]
        simp only [List.mem_cons, Ne.symm hr, false_or]

theorem raisesRows (h : Course A cost reach s R i (t + 1)) {last : Nat}
    (hlast : ∀ r ∈ insert i R, r.val ≤ last) :
    Probe.RaisesRows A cost (Probe.after A cost reach s i t)
      (Probe.after A cost reach s i (t + 1)) last where
  choice := by
    intro hnone
    have hq := h.reaches
    have hmem := Probe.mem_outside.mpr ⟨hq.column_ne_zero, hq.column_fresh⟩
    exact absurd (hnone ▸ hmem) List.not_mem_nil
  distinct := h.nodup_rows
  inRange := fun r hr =>
    ⟨Nat.one_le_iff_ne_zero.mpr fun h0 => (h.row_mem hr).1 (Fin.ext h0), hlast r (h.row_mem hr).2⟩
  once := fun columns hperm r => by
    -- No row comes twice, so each is raised once, in whatever order.
    have hrows := hperm.map fun j =>
      (Probe.after A cost reach s i (t + 1)).rowOf[j]
    rw [foldl_put A _ (hrows.nodup_iff.mpr h.nodup_rows), h.reaches.rowPotential, h.reaches.rowOf]
    rw [h.reaches.rowOf] at hrows
    simp only [hrows.mem_iff]

/-! ### Links -/

/-- A reached column keeps its link. -/
theorem cameFrom_eq (h : Course A cost reach s R i t) (hut : u ≤ t) :
    (Probe.after A cost reach s i t).cameFrom[
        (Probe.after A cost reach s i u).column] =
      (Probe.after A cost reach s i u).cameFrom[
        (Probe.after A cost reach s i u).column] := by
  induction t, hut using Nat.le_induction with
  | base => rfl
  | succ t hut ih =>
      -- What is reached is in the tree from the next step on, where no link is rewritten.
      have hmem := h.mem_visited_iff.mpr ⟨u, Nat.lt_succ_of_le hut, rfl⟩
      rw [h.reaches.cameFrom_of_mem hmem]
      exact ih (h.mono (Nat.le_succ t))

/-- The link of an improved column leads to the column of the last step that improved it. -/
theorem exists_link (h : Course A cost reach s R i t) {x : Slot N}
    (hx : x ∈ Probe.improvedBy A cost reach s i t) :
    ∃ k < t, (Probe.after A cost reach s i k).enter.improves A cost x = true ∧
      (Probe.after A cost reach s i t).cameFrom[x] =
        (Probe.after A cost reach s i k).column := by
  induction t with
  | zero => exact absurd hx (Finset.notMem_empty x)
  | succ t ih =>
      rw [h.reaches.cameFrom]
      -- Either the last step has written the link, or it has left that of an earlier one.
      by_cases himp : (Probe.after A cost reach s i t).enter.improves A cost x = true
      · exact ⟨t, Nat.lt_succ_self t, himp, if_pos himp⟩
      · rw [if_neg himp]
        rcases Finset.mem_union.mp hx with hx | hx
        · rcases ih (h.mono (Nat.le_succ t)) hx with ⟨k, hk, hold⟩
          exact ⟨k, Nat.lt_succ_of_lt hk, hold⟩
        · exact absurd (Probe.mem_improvedNow.mp hx) himp

end Course

/-- A search does not end at the virtual column, which holds the new row. -/
theorem Tree.column_ne_zero {s : State α N} {i : Slot N} {p : Probe α N} (h : Tree s i p)
    (hi0 : i ≠ 0) (hdone : p.done = true) : p.column ≠ 0 := fun h0 => by
  have hrow := Probe.done_iff.mp hdone
  rw [h0, h.rowOf_zero] at hrow
  exact hi0 hrow

/-- The search that an insertion makes, as a course that ends. -/
theorem exists_course (A : Arithmetic α) (cost : Slot N → Slot N → α) (reach : α)
    {s : State α N} {R : Finset (Slot N)} {i : Slot N} (hs : Settled s R) (hi : i ∉ R)
    (hi0 : i ≠ 0) : ∃ n, Course A cost reach s R i n ∧
      Probe.EndsAfter A cost reach s i n ∧
      (insertRow A cost reach s i).probe = Probe.after A cost reach s i n := by
  have hdone := (Tree.insertRow A cost reach hs hi hi0).2
  rcases Probe.exists_iterate (N + 1) _ (Probe.start_not_done hi0) hdone with ⟨n, hgoing, heq⟩
  have hprobe : (insertRow A cost reach s i).probe = Probe.after A cost reach s i n := heq
  exact ⟨n, ⟨hs, hi, hi0, hgoing⟩, ⟨hprobe ▸ hdone, hgoing⟩, hprobe⟩

/-! ### Rows in turn -/

/-- The rows before a row, and with it the rows up to it. -/
theorem mem_insert_take {i r : Slot N} (hi0 : i ≠ 0) :
    r ∈ insert i ((rows N).take (i.val - 1)).toFinset ↔ r ≠ 0 ∧ r.val ≤ i.val := by
  have hpos := Nat.pos_of_ne_zero fun h0 => hi0 (Fin.ext h0)
  rw [Finset.mem_insert, mem_take_rows, Fin.ext_iff (a := r) (b := i)]
  constructor
  · rintro (heq | ⟨hr, hle⟩)
    · exact ⟨fun h0 => hi0 (Fin.ext (heq.symm.trans (Fin.ext_iff.mp h0))), heq.le⟩
    · exact ⟨hr, by omega⟩
  · rintro ⟨hr, hle⟩
    by_cases heq : r.val = i.val
    · exact Or.inl heq
    · exact Or.inr ⟨hr, by omega⟩

theorem not_mem_take {i : Slot N} : i ∉ ((rows N).take (i.val - 1)).toFinset := by
  rw [mem_take_rows]
  rintro ⟨hi0, hle⟩
  have hpos := Nat.pos_of_ne_zero fun h0 => hi0 (Fin.ext h0)
  omega

/-- The stage of a row inserts it into the state behind the rows before it. -/
theorem stage_of_inserted {i : Slot N} (hi0 : i ≠ 0) {before : State α N}
    (h : inserted A cost reach (State.start A N) ((rows N).take (i.val - 1)) = some before) :
    (stages A N cost reach)[i.val - 1]? = some (insertRow A cost reach before i) := by
  rcases Fin.exists_succ_eq.mpr hi0 with ⟨k, rfl⟩
  rw [Fin.val_succ, Nat.add_sub_cancel] at h ⊢
  exact stages_get k.isLt h

/-- Whatever its arithmetic does, the search for row `i` after the rows before it ends within `i`
    steps at a column without a row. On the way it never lacks a column to choose, each step
    raises every row of the tree once, and no row is moved. -/
theorem insertRow_finds_vacant (A : Arithmetic α) (cost : Slot N → Slot N → α) (reach : α)
    {i : Slot N} (hi0 : i ≠ 0) {before : State α N}
    (h : inserted A cost reach (State.start A N) ((rows N).take (i.val - 1)) = some before) :
    (stages A N cost reach)[i.val - 1]? = some (insertRow A cost reach before i) ∧
    ∃ n, n ≤ i.val ∧ Probe.EndsAfter A cost reach before i n ∧
      (insertRow A cost reach before i).probe = Probe.after A cost reach before i n ∧
      (∀ t < n, Probe.RaisesRows A cost (Probe.after A cost reach before i t)
        (Probe.after A cost reach before i (t + 1)) i.val) ∧
      (insertRow A cost reach before i).probe.column ≠ 0 ∧
      before.rowOf[(insertRow A cost reach before i).probe.column] = 0 ∧
      ∀ j : Slot N, j ≠ 0 →
        (insertRow A cost reach before i).probe.rowOf[j] = before.rowOf[j] := by
  have hs := Settled.of_inserted (fresh_take N _) h
  rcases exists_course A cost reach hs not_mem_take hi0 with ⟨n, hcourse, hends, hprobe⟩
  rcases Tree.insertRow A cost reach hs not_mem_take hi0 with ⟨htree, hdone⟩
  have hcolumn := htree.column_ne_zero hi0 hdone
  refine ⟨stage_of_inserted hi0 h, n, ?_, hends, hprobe, fun t ht => ?_, hcolumn, ?_,
    fun j hj => htree.rowOf_of_ne hj⟩
  · -- The rows before row `i` and row `i` itself are `i` rows.
    have hcard := List.toFinset_card_le ((rows N).take (i.val - 1))
    have hle := hcourse.le_card
    have hpos := Nat.pos_of_ne_zero fun h0 => hi0 (Fin.ext h0)
    rw [List.length_take] at hcard
    omega
  · exact (hcourse.mono ht).raisesRows fun r hr => ((mem_insert_take hi0).mp hr).2
  · rw [← htree.rowOf_of_ne hcolumn]
    exact Probe.done_iff.mp hdone

/-- Costs that are no number, infinite, negative and huge, for three rows. -/
def wildSquare (r j : Slot 3) : Float :=
  if r.val = j.val then 0.0 / 0.0 else if r.val < j.val then 1.0 / 0.0
  else if j.val = 1 then -1.0 else 1.0e300

theorem insertRow_finds_vacant_wildSquare :
    (3 : Slot 3) ≠ 0 ∧
    ∃ before, inserted .double wildSquare 1.0e18 (State.start .double 3) ((rows 3).take 2) =
      some before ∧
    (stages .double 3 wildSquare 1.0e18)[2]? = some (insertRow .double wildSquare 1.0e18 before 3) ∧
    ∃ n, n ≤ 3 ∧ Probe.EndsAfter .double wildSquare 1.0e18 before 3 n ∧
      (insertRow .double wildSquare 1.0e18 before 3).probe =
        Probe.after .double wildSquare 1.0e18 before 3 n ∧
      (∀ t < n, Probe.RaisesRows .double wildSquare
        (Probe.after .double wildSquare 1.0e18 before 3 t)
        (Probe.after .double wildSquare 1.0e18 before 3 (t + 1)) 3) ∧
      (insertRow .double wildSquare 1.0e18 before 3).probe.column ≠ 0 ∧
      before.rowOf[(insertRow .double wildSquare 1.0e18 before 3).probe.column] = 0 ∧
      ∀ j : Slot 3, j ≠ 0 →
        (insertRow .double wildSquare 1.0e18 before 3).probe.rowOf[j] = before.rowOf[j] := by
  have hrow : (3 : Slot 3) ≠ 0 := by decide
  have hsome : (inserted .double wildSquare 1.0e18 (State.start .double 3)
      ((rows 3).take 2)).isSome = true := by decide +kernel
  rcases Option.isSome_iff_exists.mp hsome with ⟨before, hbefore⟩
  exact ⟨hrow, before, hbefore, insertRow_finds_vacant .double wildSquare 1.0e18 hrow hbefore⟩

end Search

end Roster
