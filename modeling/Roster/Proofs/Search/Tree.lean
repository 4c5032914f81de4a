import Mathlib.Data.Fintype.Card
import Roster.Proofs.Search.Trail

/-!
# The Tree of a Search

What the search for one row does, whatever its arithmetic does. `Probe.Reaches` says
everything that one step does while a column is left outside the tree; no later proof opens
the step again.

`Tree` is what every step keeps. It says nothing of numbers: the tree grows by one column
at a time from the virtual one, each of its columns holds a row, and every link, also one
that an earlier row left behind, leads to a column that holds a row. The last part has to
cover the old links too, since the way back may follow them.

A column without a row lies outside every tree. So a step never lacks a column to go to,
and the tree cannot take in all slots before the search ends.

## Main definitions

* `Probe.seen`: The slacks after the row of the reached column was looked at.
* `Probe.price`: What a step adds to the rows of the tree and takes from its columns.
* `Probe.Reaches`: Everything that one step does.
* `Tree`: What every step keeps, in any arithmetic.

## Theorems

* `Probe.step_reaches`: A step does this if a column is left outside the tree.
* `Tree.of_reaches`: A step keeps the tree.
* `Probe.run_keeps`, `Probe.insertRow_keeps`: What every step keeps holds where the search ends.
* `Tree.run_done`: The search ends at a column without a row.
-/

namespace Roster

namespace Search

variable {α : Type} {N : Nat} {A : Arithmetic α} {cost : Slot N → Slot N → α}

namespace Probe

/-- The slacks after the row of the reached column was looked at. -/
def seen (A : Arithmetic α) (cost : Slot N → Slot N → α) (p : Probe α N) : Vector α (N + 1) :=
  (p.enter.scan A cost).slack

/-- The price of a step from `p` to `q`: the slack of the column that it reaches. -/
def price (A : Arithmetic α) (cost : Slot N → Slot N → α) (p q : Probe α N) : α :=
  (p.seen A cost)[q.column]

/-- Everything that one step does on the way from `p` to `q` while a column is left outside
    the tree. -/
structure Reaches (A : Arithmetic α) (cost : Slot N → Slot N → α) (p q : Probe α N) : Prop where
  visited : q.visited = p.column :: p.visited
  column_ne_zero : q.column ≠ 0
  column_fresh : q.column ∉ p.column :: p.visited
  /-- The column is the nearest of those outside, each of which is one of `others` or it. -/
  nearest : ∃ j others, (∀ k, k ≠ 0 → k ∉ p.column :: p.visited → k ∈ j :: others) ∧
    q.column = Probe.nearest A (p.seen A cost) j others
  rowOf : q.rowOf = p.rowOf
  cameFrom : ∀ j : Slot N, q.cameFrom[j] =
    if p.enter.improves A cost j then p.column else p.cameFrom[j]
  rowPotential : ∀ r : Slot N, q.rowPotential[r] =
    if r ∈ q.visited.map (fun j => p.rowOf[j]) then
      A.add p.rowPotential[r] (price A cost p q)
    else p.rowPotential[r]
  colPotential : ∀ j : Slot N, q.colPotential[j] =
    if j ∈ q.visited then A.sub p.colPotential[j] (price A cost p q)
    else p.colPotential[j]
  slack : ∀ j : Slot N, q.slack[j] =
    if j ∈ q.visited then (p.seen A cost)[j]
    else A.sub (p.seen A cost)[j] (price A cost p q)

theorem step_reaches {p : Probe α N} {y : Slot N} (hy : y ≠ 0) (hout : y ∉ p.column :: p.visited) :
    Reaches A cost p (p.step A cost) := by
  have hmem : y ∈ outside (p.column :: p.visited) := mem_outside.mpr ⟨hy, hout⟩
  cases hcase : outside (p.column :: p.visited) with
  | nil => exact absurd (hcase ▸ hmem) List.not_mem_nil
  | cons j js =>
      have hstep : p.step A cost =
          { (p.enter.scan A cost).shift A (p.seen A cost)[Probe.nearest A (p.seen A cost) j js] with
            column := Probe.nearest A (p.seen A cost) j js } := by
        simp only [step, enter, scan, hcase]
        rfl
      -- The nearest column is one of those outside, whatever the arithmetic calls least.
      have hnext := mem_outside.mp (hcase ▸ nearest_mem A (p.seen A cost) j js)
      rw [hstep]
      exact {
        visited := rfl
        column_ne_zero := hnext.1
        column_fresh := hnext.2
        nearest := ⟨j, js, fun k hk hkout => hcase ▸ mem_outside.mpr ⟨hk, hkout⟩, rfl⟩
        rowOf := rfl
        cameFrom := fun k => by simp [shift, scan, enter]
        rowPotential := fun r => by simp [shift, scan, enter, price]
        colPotential := fun k => by simp [shift, scan, enter, price]
        slack := fun k => by simp [shift, scan, enter, seen, price] }

theorem improves_iff {p : Probe α N} {j : Slot N} :
    p.enter.improves A cost j = true ↔ j ≠ 0 ∧ j ∉ p.column :: p.visited ∧
      A.less (reduced A cost p.toState p.rowOf[p.column] j) p.slack[j] = true := by
  simp [improves, enter, and_assoc]

theorem seen_get {p : Probe α N} (j : Slot N) :
    (p.seen A cost)[j] = if p.enter.improves A cost j then
      reduced A cost p.toState p.rowOf[p.column] j else p.slack[j] := by
  simp [seen, scan, enter]

/-- No step sets the link of a column of the tree. -/
theorem Reaches.cameFrom_of_mem {p q : Probe α N} (hq : Reaches A cost p q) {j : Slot N}
    (hj : j ∈ q.visited) : q.cameFrom[j] = p.cameFrom[j] := by
  have hkeep : p.enter.improves A cost j ≠ true := fun himp =>
    (improves_iff.mp himp).2.1 (hq.visited ▸ hj)
  rw [hq.cameFrom, if_neg hkeep]

/-- What every step keeps holds where the search ends. A step is taken only from a column
    that holds a row. -/
theorem run_keeps {P : Probe α N → Prop}
    (hstep : ∀ p, P p → p.done = false → P (p.step A cost)) :
    ∀ (fuel : Nat) (p : Probe α N), P p → p.done = false → P (p.run A cost fuel) := by
  intro fuel
  induction fuel with
  | zero => intro p hp _; exact hp
  | succ fuel ih =>
      intro p hp hdone
      have hnext := hstep p hp hdone
      simp only [run]
      by_cases hend : (p.step A cost).done
      · rw [if_pos hend]
        exact hnext
      · rw [if_neg hend]
        exact ih _ hnext (Bool.not_eq_true _ ▸ hend)

/-- What holds behind the first step and is kept by every other one holds where the search for a
    row ends. -/
theorem insertRow_keeps (A : Arithmetic α) (cost : Slot N → Slot N → α) (reach : α)
    {P : Probe α N → Prop} {s : State α N} {i : Slot N}
    (hfirst : P ((start s i reach).step A cost))
    (hstep : ∀ p, P p → p.done = false → P (p.step A cost)) :
    P (insertRow A cost reach s i).probe := by
  rw [insertRow, run]
  by_cases hend : ((start s i reach).step A cost).done = true
  · rw [if_pos hend]
    exact hfirst
  · rw [if_neg hend]
    exact run_keeps hstep N _ hfirst (Bool.not_eq_true _ ▸ hend)

theorem start_rowOf {s : State α N} {i : Slot N} {reach : α} (j : Slot N) :
    (start s i reach).rowOf[j] = if j = 0 then i else s.rowOf[j] := by
  simp only [@eq_comm _ j 0]
  exact put_get s.rowOf 0 i j

theorem done_iff {p : Probe α N} : p.done = true ↔ p.rowOf[p.column] = 0 := by
  simp [done]

theorem start_not_done {s : State α N} {i : Slot N} {reach : α} (hi : i ≠ 0) :
    (start s i reach).done = false := by
  rw [Bool.eq_false_iff, Ne, done_iff, start_rowOf]
  exact hi

end Probe

/-- What every step of the search for row `i` from state `s` keeps, in any arithmetic. -/
structure Tree (s : State α N) (i : Slot N) (p : Probe α N) : Prop where
  /-- Rows stand where they stood, and the virtual column holds the new one. -/
  rowOf : ∀ j : Slot N, p.rowOf[j] = if j = 0 then i else s.rowOf[j]
  nodup : (p.column :: p.visited).Nodup
  /-- The tree starts at the virtual column. -/
  root : p.visited = [] ∧ p.column = 0 ∨ 0 ∈ p.visited ∧ p.column ≠ 0
  /-- A column of the tree holds a row. -/
  occupied : ∀ j ∈ p.visited, p.rowOf[j] ≠ 0
  /-- A link, new or old, leads to a column that holds a row. -/
  linked : ∀ j k : Slot N, p.cameFrom[j] = k → p.rowOf[k] ≠ 0

namespace Tree

variable {s : State α N} {i : Slot N} {p : Probe α N}

theorem rowOf_zero (h : Tree s i p) : p.rowOf[(0 : Slot N)] = i := by
  rw [h.rowOf, if_pos rfl]

theorem rowOf_of_ne (h : Tree s i p) {j : Slot N} (hj : j ≠ 0) : p.rowOf[j] = s.rowOf[j] := by
  rw [h.rowOf, if_neg hj]

/-- A column without a row is outside the tree, and the search goes on from another. -/
theorem not_mem_of_vacant (h : Tree s i p) (hdone : p.done = false) {y : Slot N}
    (hy : y ≠ 0) (hvacant : s.rowOf[y] = 0) : y ∉ p.column :: p.visited := by
  have hrow : p.rowOf[y] = 0 := (h.rowOf_of_ne hy).trans hvacant
  intro hmem
  rcases List.mem_cons.mp hmem with rfl | hmem
  · rw [Probe.done_iff.mpr hrow] at hdone
    exact absurd hdone Bool.noConfusion
  · exact h.occupied y hmem hrow

/-- With a column without a row, a step from a column that holds one does all it should. -/
theorem reaches (h : Tree s i p) (hdone : p.done = false) {y : Slot N} (hy : y ≠ 0)
    (hvacant : s.rowOf[y] = 0) : Probe.Reaches A cost p (p.step A cost) :=
  Probe.step_reaches hy (h.not_mem_of_vacant hdone hy hvacant)

theorem start {reach : α} (hi : i ≠ 0)
    (hlinked : ∀ j k : Slot N, s.cameFrom[j] = k → k ≠ 0 → s.rowOf[k] ≠ 0) :
    Tree s i (Probe.start s i reach) where
  rowOf := Probe.start_rowOf
  nodup := List.nodup_singleton _
  root := Or.inl ⟨rfl, rfl⟩
  occupied := fun _ hj => absurd hj List.not_mem_nil
  linked := fun j k hjk => by
    rw [Probe.start_rowOf]
    by_cases hk : k = 0
    · rw [if_pos hk]
      exact hi
    · rw [if_neg hk]
      exact hlinked j k hjk hk

theorem of_reaches {q : Probe α N} (h : Tree s i p) (hdone : p.done = false)
    (hq : Probe.Reaches A cost p q) : Tree s i q := by
  have hcol : p.rowOf[p.column] ≠ 0 := fun h0 => by
    rw [Probe.done_iff.mpr h0] at hdone
    exact absurd hdone Bool.noConfusion
  refine ⟨fun j => hq.rowOf ▸ h.rowOf j, ?_, Or.inr ⟨?_, hq.column_ne_zero⟩, ?_, ?_⟩
  · rw [hq.visited]
    exact List.nodup_cons.mpr ⟨hq.column_fresh, h.nodup⟩
  · -- The virtual column is the first to enter, and nothing leaves.
    rw [hq.visited]
    rcases h.root with ⟨_, h0⟩ | ⟨h0, _⟩
    · exact h0 ▸ List.mem_cons_self
    · exact List.mem_cons_of_mem _ h0
  · intro j hj
    rw [hq.visited] at hj
    rw [hq.rowOf]
    rcases List.mem_cons.mp hj with rfl | hj
    · exact hcol
    · exact h.occupied j hj
  · -- A link that the step sets leads to the reached column, and the others are older.
    intro j k hjk
    rw [hq.cameFrom] at hjk
    rw [hq.rowOf]
    by_cases himp : p.enter.improves A cost j
    · rw [if_pos himp] at hjk
      exact hjk ▸ hcol
    · rw [if_neg himp] at hjk
      exact h.linked j k hjk

theorem length_visited_le (h : Tree s i p) : p.visited.length ≤ N := by
  have hle := List.Nodup.length_le_card h.nodup
  rw [Fintype.card_fin, List.length_cons] at hle
  exact Nat.le_of_succ_le_succ hle

/-- The tree takes in a column with every step, and it cannot take in all of them. -/
theorem run_done {y : Slot N} (hy : y ≠ 0) (hvacant : s.rowOf[y] = 0) :
    ∀ (fuel : Nat) (p : Probe α N), Tree s i p → p.done = false →
      N < p.visited.length + fuel → (p.run A cost fuel).done = true := by
  intro fuel
  induction fuel with
  | zero =>
      -- Without a step left, the tree would have taken in more columns than there are.
      intro p h _ hfuel
      have := h.length_visited_le
      omega
  | succ fuel ih =>
      intro p h hdone hfuel
      have hq : Probe.Reaches A cost p (p.step A cost) := h.reaches hdone hy hvacant
      simp only [Probe.run]
      by_cases hend : (p.step A cost).done
      · rw [if_pos hend]
        exact hend
      · rw [if_neg hend]
        refine ih _ (h.of_reaches hdone hq) (Bool.not_eq_true _ ▸ hend) ?_
        rw [hq.visited, List.length_cons]
        omega

end Tree

end Search

end Roster
