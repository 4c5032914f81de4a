import Mathlib.Algebra.BigOperators.Group.Finset.Basic
import Roster.Proofs.Search.Balance

/-!
# Two Searches Side by Side

Which column a search goes to next is decided by comparing slacks, and by the order of the
columns where several slacks are least. So two searches that see the same differences go the
same way, ties included. Here the costs of the two differ by a constant in each row, and
their caps differ at will.

The two are not equal inside. In the first step all costs of the new row differ by its
constant; so does the price of that step, hence the constant goes over into the potential of
the row, and nothing is left of it afterwards. `gap` is what is left of it.

The caps do not go away like that. Reduced costs may exceed a cap, so a column may be improved
in one search and never in the other, and then its two slacks and its two links have nothing
to do with each other. No equation between such slacks is kept by a step. What is kept is that
both are out of reach: there is a column without a row that the new row sees nearer, in both
searches. `Abreast.slack` says this of every column that is not alike, and a column out of
reach is never the nearest.

## Main definitions

* `RowsDiffer`: Costs that differ by a constant in each row.
* `Shifted`: What two states have in common between two insertions.
* `gap`: What is left of the difference between the costs of the new row.
* `Abreast`: What two searches have in common between two steps.

## Theorems

* `leastBy_lt`, `Probe.step_lowest`: A tie goes to the lowest column.
* `Probe.run_keeps_both`: Two searches keep to their end what their steps keep.
* `Underway.price_le`: The column without a row bounds what a step costs.
* `Abreast.seen_cases`: What both searches see of a column.
* `Abreast.column_eq`: Both searches reach the same column.
* `Abreast.step`: A step keeps what two searches have in common.
-/

namespace Roster

namespace Search

variable {α : Type} {N : Nat}

theorem leastBy_lt [LinearOrder α] (x : α) (xs : List α) :
    ∀ k : Fin (xs.length + 1), k < leastBy (fun a b => decide (a < b)) x xs →
      (x :: xs).get (leastBy (fun a b => decide (a < b)) x xs) < (x :: xs).get k := by
  induction xs generalizing x with
  | nil =>
      intro k hk
      exact absurd hk (Fin.not_lt_zero k)
  | cons z zs ih =>
      intro k hk
      -- If the first number is chosen, there is none before it.
      simp only [leastBy, decide_eq_true_eq] at hk ⊢
      by_cases hlt : (z :: zs).get (leastBy (fun a b => decide (a < b)) z zs) < x
      · rw [if_pos hlt] at hk
        rw [if_pos hlt]
        cases k using Fin.cases with
        | zero => exact hlt
        | succ m => exact ih z m (Fin.succ_lt_succ_iff.mp hk)
      · rw [if_neg hlt] at hk
        exact absurd hk (Fin.not_lt_zero k)

namespace Probe

theorem outside_pairwise (visited : List (Slot N)) : (outside visited).Pairwise (· < ·) :=
  (List.pairwise_lt_finRange (N + 1)).filter _

/-- What every step of two searches keeps holds where they end, provided that it says whether
    they have ended. The searches may be in two arithmetics. -/
theorem run_keeps_both {β : Type} {A : Arithmetic α} {B : Arithmetic β}
    {cost : Slot N → Slot N → α} {cost' : Slot N → Slot N → β}
    {P : Probe α N → Probe β N → Prop} (hend : ∀ p p', P p p' → p'.done = p.done)
    (hstep : ∀ p p', P p p' → p.done = false → P (p.step A cost) (p'.step B cost')) :
    ∀ (fuel : Nat) (p : Probe α N) (p' : Probe β N), P p p' → p.done = false →
      P (p.run A cost fuel) (p'.run B cost' fuel) := by
  intro fuel
  induction fuel with
  | zero => intro p p' hp _; exact hp
  | succ fuel ih =>
      intro p p' hp hdone
      have hnext := hstep p p' hp hdone
      have hsame := hend _ _ hnext
      simp only [run]
      by_cases hd : (p.step A cost).done
      · rw [if_pos hd, if_pos (hsame.trans hd)]
        exact hnext
      · rw [if_neg hd, if_neg (hsame ▸ hd)]
        exact ih _ _ hnext (Bool.not_eq_true _ ▸ hd)

variable [CommRing α] [LinearOrder α] {cost : Slot N → Slot N → α}

theorem nearest_first {slack : Vector α (N + 1)} {c j : Slot N} {js : List (Slot N)}
    (hsorted : (j :: js).Pairwise (· < ·)) (hc : c = nearest .ofOrder slack j js) :
    ∀ k ∈ j :: js, slack[k] ≤ slack[c] → c ≤ k := by
  intro k hk hle
  -- The choice is made among the slacks alone, so columns are named by their places.
  let f : Slot N → α := fun k => slack[k]
  let least := leastBy (fun a b => decide (a < b)) (f j) (js.map f)
  have hlen : (js.map f).length + 1 = (j :: js).length := by simp
  have hread : ∀ l : Fin ((js.map f).length + 1),
      (f j :: js.map f).get l = f ((j :: js).get (l.cast hlen)) := fun l =>
    List.getElem_map (l := j :: js) f
  have hcolumn : c = (j :: js).get (least.cast hlen) := hc
  rcases List.get_of_mem hk with ⟨m, hm⟩
  by_contra hlt
  -- A lower column stands earlier, where every number is larger.
  have hearlier : m.cast hlen.symm < least := by
    by_contra hge
    refine hlt ?_
    rw [hcolumn, ← hm]
    rcases Nat.lt_or_eq_of_le (not_lt.mp hge) with h | h
    · exact le_of_lt (List.pairwise_iff_get.mp hsorted (least.cast hlen) m h)
    · exact le_of_eq (congrArg (j :: js).get (Fin.ext h))
  have hless := leastBy_lt (f j) (js.map f) _ hearlier
  rw [hread, hread, ← hcolumn] at hless
  have hkm : f ((j :: js).get ((m.cast hlen.symm).cast hlen)) = f k := congrArg f hm
  rw [hkm] at hless
  exact absurd hle (not_le.mpr hless)

/-- No column below the reached one is as near. -/
theorem step_lowest {p : Probe α N} {k : Slot N} (hk : k ≠ 0) (hout : k ∉ p.column :: p.visited)
    (hle : (p.seen .ofOrder cost)[k] ≤ price .ofOrder cost p (p.step .ofOrder cost)) :
    (p.step .ofOrder cost).column ≤ k := by
  have hmem : k ∈ outside (p.column :: p.visited) := mem_outside.mpr ⟨hk, hout⟩
  cases hcase : outside (p.column :: p.visited) with
  | nil => exact absurd (hcase ▸ hmem) List.not_mem_nil
  | cons j js =>
      have hcolumn : (p.step .ofOrder cost).column =
          Probe.nearest .ofOrder (p.seen .ofOrder cost) j js := by
        simp only [step, enter, scan, hcase]
        rfl
      exact nearest_first (hcase ▸ outside_pairwise _) hcolumn k (hcase ▸ hmem) hle

end Probe

variable [CommRing α] [LinearOrder α] {cost cost' : Slot N → Slot N → α} {reach reach' : α}
  {shift : Slot N → α} {R : Finset (Slot N)} {i y : Slot N}

/-- What two states have in common between two insertions when the rows of `R` are matched and
    the costs of row `r` differ by `shift r`. Of the links nothing is said. -/
structure Shifted (shift : Slot N → α) (R : Finset (Slot N)) (s s' : State α N) : Prop where
  rowOf : s'.rowOf = s.rowOf
  rowPotential : ∀ r ∈ R, s'.rowPotential[r] = s.rowPotential[r] + shift r
  colPotential : ∀ j : Slot N, j ≠ 0 → s'.colPotential[j] = s.colPotential[j]
  virtual : s'.colPotential[(0 : Slot N)] + ∑ r ∈ R, shift r = s.colPotential[(0 : Slot N)]

omit [LinearOrder α] in
theorem Shifted.start (shift : Slot N → α) (s : State α N) : Shifted shift ∅ s s where
  rowOf := rfl
  rowPotential := fun r hr => absurd hr (Finset.notMem_empty r)
  colPotential := fun _ _ => rfl
  virtual := by rw [Finset.sum_empty, add_zero]

/-- What is left of the difference between the costs of the new row: all of it before the first
    step, and nothing afterwards. -/
def gap (shift : α) (p : Probe α N) : α := if p.visited = [] then shift else 0

/-- What the searches `p` and `p'` for row `i` have in common between two steps when the rows
    of `R` are matched. A column is alike in both, or it is out of reach in both, since the new
    row sees column `y` nearer. -/
structure Abreast (shift : Slot N → α) (cost cost' : Slot N → Slot N → α) (R : Finset (Slot N))
    (i y : Slot N) (p p' : Probe α N) : Prop where
  rowOf : p'.rowOf = p.rowOf
  visited : p'.visited = p.visited
  column : p'.column = p.column
  rowPotential : ∀ r ∈ R, p'.rowPotential[r] = p.rowPotential[r] + shift r
  newRow : p'.rowPotential[i] + gap (shift i) p = p.rowPotential[i] + shift i
  colPotential : ∀ j : Slot N, j ≠ 0 → p'.colPotential[j] = p.colPotential[j]
  virtual : p'.colPotential[(0 : Slot N)] + ∑ r ∈ R, shift r + shift i =
    p.colPotential[(0 : Slot N)] + gap (shift i) p
  slack : ∀ j : Slot N, j ≠ 0 → j ∉ p.visited →
    (p'.slack[j] = p.slack[j] + gap (shift i) p ∧ p'.cameFrom[j] = p.cameFrom[j]) ∨
    (Probe.reduced .ofOrder cost p.toState i y < p.slack[j] ∧
      Probe.reduced .ofOrder cost' p'.toState i y < p'.slack[j])
  link : ∀ j ∈ p.column :: p.visited, j ≠ 0 → p'.cameFrom[j] = p.cameFrom[j]

/-- Costs that differ by a constant in each row. -/
structure RowsDiffer (shift : Slot N → α) (cost cost' : Slot N → Slot N → α) : Prop where
  cell : ∀ r j : Slot N, r ≠ 0 → j ≠ 0 → cost' r j = cost r j + shift r

/-- Before the first step every slack is the cap, and the cell of the column without a row is
    below that. -/
theorem Underway.start_far {s : State α N}
    (w : Underway cost reach s R i y (Probe.start s i reach)) (j : Slot N) :
    Probe.reduced .ofOrder cost (Probe.start s i reach).toState i y <
      (Probe.start s i reach).slack[j] := by
  have hrow : (Probe.start s i reach).rowPotential[i] = 0 := w.balanced.untouched i w.fresh
  have hcol : (Probe.start s i reach).colPotential[y] = 0 :=
    w.balanced.vacant y w.column_ne_zero w.vacant
  have hcap : (Probe.start s i reach).slack[j] = reach := replicate_get reach j
  rw [Probe.reduced_eq, hrow, hcol, sub_zero, sub_zero, hcap]
  exact w.below

section Step

variable {s : State α N} {p : Probe α N}

theorem Underway.root_mem (w : Underway cost reach s R i y p) (hdone : p.done = false) :
    0 ∈ (p.step .ofOrder cost).visited :=
  (w.tree_step hdone).zero_mem_of_ne_nil ((w.reaches hdone).visited ▸ List.cons_ne_nil _ _)

/-- No step costs more than the cell of the column without a row. -/
theorem Underway.price_le (w : Underway cost reach s R i y p) (hdone : p.done = false) :
    Probe.price .ofOrder cost p (p.step .ofOrder cost) ≤
      Probe.reduced .ofOrder cost p.toState i y := by
  have hq := w.reaches hdone
  have hle := w.explored.seen_le hq (w.root_mem hdone) w.column_ne_zero (w.outside hdone)
  rw [w.tree.rowOf_zero] at hle
  exact (hq.price_le w.column_ne_zero (w.outside hdone)).trans hle

theorem Underway.free_step (w : Underway cost reach s R i y p) (hdone : p.done = false) :
    Probe.reduced .ofOrder cost (p.step .ofOrder cost).toState i y =
      Probe.reduced .ofOrder cost p.toState i y -
        Probe.price .ofOrder cost p (p.step .ofOrder cost) := by
  have heq := (w.reaches hdone).reduced_of_mem (w.root_mem hdone) y
  rw [(w.tree_step hdone).rowOf_zero, w.tree.rowOf_zero, if_neg (w.outside hdone)] at heq
  exact heq

end Step

namespace Abreast

variable {s s' : State α N} {p p' : Probe α N}

theorem start (h : Shifted shift R s s') (w : Underway cost reach s R i y (Probe.start s i reach))
    (w' : Underway cost' reach' s' R i y (Probe.start s' i reach')) :
    Abreast shift cost cost' R i y (Probe.start s i reach) (Probe.start s' i reach') := by
  have hgap : gap (shift i) (Probe.start s i reach) = shift i := if_pos rfl
  have hzero : s.rowPotential[i] = 0 := w.balanced.untouched i w.fresh
  have hzero' : s'.rowPotential[i] = 0 := w'.balanced.untouched i w'.fresh
  refine ⟨congrArg (put · 0 i) h.rowOf, rfl, rfl, h.rowPotential, ?_, h.colPotential, ?_,
    fun j _ _ => Or.inr ⟨w.start_far j, w'.start_far j⟩, ?_⟩
  · rw [hgap]
    exact congrArg (· + shift i) (hzero'.trans hzero.symm)
  · rw [hgap]
    exact congrArg (· + shift i) h.virtual
  · intro j hj hj0
    exact absurd (List.mem_singleton.mp hj) hj0

/-- The tree holds a row that was matched before only after the first step. -/
theorem gap_eq_zero (w : Underway cost reach s R i y p) (hdone : p.done = false) {x : Slot N}
    (hx : x ∈ (p.step .ofOrder cost).visited) (hrow : p.rowOf[x] ∈ R) : gap (shift i) p = 0 := by
  have hx0 : x ≠ 0 := fun h0 => by
    rw [h0, w.tree.rowOf_zero] at hrow
    exact w.fresh hrow
  exact if_neg (w.tree.visited_ne_nil (w.reaches hdone) hx0 hx)

variable (l : Abreast shift cost cost' R i y p p') (hshift : RowsDiffer shift cost cost')
  (w : Underway cost reach s R i y p) (w' : Underway cost' reach' s' R i y p')
  (hdone : p.done = false) (hdone' : p'.done = false)

include l w w' hdone hdone' in
theorem visited_eq : (p'.step .ofOrder cost').visited = (p.step .ofOrder cost).visited := by
  rw [(w.reaches hdone).visited, (w'.reaches hdone').visited, l.column, l.visited]

variable [IsStrictOrderedRing α]

include l hshift w hdone

/-- A row of the tree sees every column as far as in the other search, but for the gap. -/
theorem reduced_eq {x j : Slot N} (hx : x ∈ (p.step .ofOrder cost).visited) (hj : j ≠ 0) :
    Probe.reduced .ofOrder cost' p'.toState p'.rowOf[x] j =
      Probe.reduced .ofOrder cost p.toState p.rowOf[x] j + gap (shift i) p := by
  have hocc : p.rowOf[x] ≠ 0 :=
    (w.reaches hdone).rowOf ▸ (w.tree_step hdone).occupied x hx
  rw [l.rowOf, Probe.reduced_eq, Probe.reduced_eq, hshift.cell _ _ hocc hj, l.colPotential j hj]
  rcases w.tree.row_mem w.balanced.placed hocc with hmem | heq
  · rw [l.rowPotential _ hmem, gap_eq_zero w hdone hx hmem]
    ring
  · rw [heq]
    linarith [l.newRow]

theorem free_eq :
    Probe.reduced .ofOrder cost' p'.toState i y =
      Probe.reduced .ofOrder cost p.toState i y + gap (shift i) p := by
  have heq := l.reduced_eq hshift w hdone (w.root_mem hdone) w.column_ne_zero
  rw [l.rowOf, w.tree.rowOf_zero] at heq
  exact heq

include w' hdone'

/-- Looking from the row of the reached column keeps a column alike or out of reach. A column
    that was out of reach becomes alike if both searches improve it, and stays out of reach if
    one of them does not, since its new slack is then above the slack of the other. -/
theorem seen_cases {j : Slot N} (hj : j ≠ 0) (hout : j ∉ p.column :: p.visited) :
    ((p'.seen .ofOrder cost')[j] = (p.seen .ofOrder cost)[j] + gap (shift i) p ∧
      (p'.step .ofOrder cost').cameFrom[j] = (p.step .ofOrder cost).cameFrom[j]) ∨
    (Probe.reduced .ofOrder cost p.toState i y < (p.seen .ofOrder cost)[j] ∧
      Probe.reduced .ofOrder cost' p'.toState i y < (p'.seen .ofOrder cost')[j]) := by
  have hcolumn : p.column ∈ (p.step .ofOrder cost).visited :=
    (w.reaches hdone).visited ▸ List.mem_cons_self
  have hout' : j ∉ p'.column :: p'.visited := by
    rw [l.column, l.visited]
    exact hout
  have hred := l.reduced_eq hshift w hdone hcolumn hj
  have hfree := l.free_eq hshift w hdone
  have himp := Probe.improves_iff_lt cost hj hout
  have himp' := Probe.improves_iff_lt cost' hj hout'
  rw [l.column] at himp'
  rw [Probe.seen_get, Probe.seen_get, (w.reaches hdone).cameFrom, (w'.reaches hdone').cameFrom,
    l.column]
  rcases l.slack j hj (fun h => hout (List.mem_cons_of_mem _ h))
    with ⟨hslack, hlink⟩ | ⟨hfar, hfar'⟩
  · -- Slacks and distances differ by the same gap, so both searches improve the column or neither.
    left
    by_cases h : p.enter.improves .ofOrder cost j = true
    · have h' : p'.enter.improves .ofOrder cost' j = true := by
        rw [himp', hred, hslack]
        linarith [himp.mp h]
      rw [if_pos h, if_pos h', if_pos h, if_pos h']
      exact ⟨hred, rfl⟩
    · have h' : ¬ p'.enter.improves .ofOrder cost' j = true := by
        rw [himp', hred, hslack]
        intro hlt
        exact h (himp.mpr (by linarith))
      rw [if_neg h, if_neg h', if_neg h, if_neg h']
      exact ⟨hslack, hlink⟩
  · by_cases h : p.enter.improves .ofOrder cost j = true
    · by_cases h' : p'.enter.improves .ofOrder cost' j = true
      · left
        rw [if_pos h, if_pos h', if_pos h, if_pos h']
        exact ⟨hred, rfl⟩
      · -- The other search keeps a slack that is out of reach, and sees no less than that here.
        right
        rw [if_pos h, if_neg h']
        have hle := not_lt.mp fun hlt => h' (himp'.mpr hlt)
        exact ⟨by linarith, hfar'⟩
    · right
      rw [if_neg h]
      by_cases h' : p'.enter.improves .ofOrder cost' j = true
      · rw [if_pos h']
        have hle := not_lt.mp fun hlt => h (himp.mpr hlt)
        exact ⟨hfar, by linarith⟩
      · rw [if_neg h']
        exact ⟨hfar, hfar'⟩

/-- Both searches reach the same column, and their prices differ by the gap. -/
theorem column_eq :
    (p'.step .ofOrder cost').column = (p.step .ofOrder cost).column ∧
      Probe.price .ofOrder cost' p' (p'.step .ofOrder cost') =
        Probe.price .ofOrder cost p (p.step .ofOrder cost) + gap (shift i) p := by
  have hq := w.reaches hdone
  have hq' := w'.reaches hdone'
  have hsame : p'.column :: p'.visited = p.column :: p.visited := by
    rw [l.column, l.visited]
  have hfresh := hq.column_fresh
  have hfresh' : (p'.step .ofOrder cost').column ∉ p.column :: p.visited :=
    hsame ▸ hq'.column_fresh
  have hle := w.price_le hdone
  have hle' := w'.price_le hdone'
  -- Each of the two columns is within reach in one search, hence alike in both.
  have hthere : (p'.seen .ofOrder cost')[(p.step .ofOrder cost).column] =
      Probe.price .ofOrder cost p (p.step .ofOrder cost) + gap (shift i) p := by
    rcases l.seen_cases hshift w w' hdone hdone' hq.column_ne_zero hfresh with ⟨heq, _⟩ | ⟨hfar, _⟩
    · exact heq
    · exact absurd hle (not_le.mpr hfar)
  have hhere : (p.seen .ofOrder cost)[(p'.step .ofOrder cost').column] + gap (shift i) p =
      Probe.price .ofOrder cost' p' (p'.step .ofOrder cost') := by
    rcases l.seen_cases hshift w w' hdone hdone' hq'.column_ne_zero hfresh'
      with ⟨heq, _⟩ | ⟨_, hfar⟩
    · exact heq.symm
    · exact absurd hle' (not_le.mpr hfar)
  have hnear := hq.price_le hq'.column_ne_zero (hq.visited ▸ hfresh')
  have hnear' := hq'.price_le hq.column_ne_zero (hq'.visited ▸ hsame ▸ hfresh)
  -- So either is nearest in both searches, and neither of them is lower than the other.
  refine ⟨le_antisymm ?_ ?_, by linarith⟩
  · exact Probe.step_lowest hq.column_ne_zero (hsame ▸ hfresh) (by linarith)
  · exact Probe.step_lowest hq'.column_ne_zero hfresh' (by linarith)

/-- Behind a step the columns that were alike have the same slack, and the others are still out
    of reach, as all slacks fall by what the new row gains. -/
theorem slack_step {j : Slot N} (hj : j ≠ 0) (hout : j ∉ (p.step .ofOrder cost).visited) :
    ((p'.step .ofOrder cost').slack[j] = (p.step .ofOrder cost).slack[j] ∧
      (p'.step .ofOrder cost').cameFrom[j] = (p.step .ofOrder cost).cameFrom[j]) ∨
    (Probe.reduced .ofOrder cost (p.step .ofOrder cost).toState i y <
        (p.step .ofOrder cost).slack[j] ∧
      Probe.reduced .ofOrder cost' (p'.step .ofOrder cost').toState i y <
        (p'.step .ofOrder cost').slack[j]) := by
  have hq := w.reaches hdone
  have hq' := w'.reaches hdone'
  have hvisited := l.visited_eq w w' hdone hdone'
  rcases l.column_eq hshift w w' hdone hdone' with ⟨_, hprice⟩
  have hslack : (p.step .ofOrder cost).slack[j] =
      (p.seen .ofOrder cost)[j] - Probe.price .ofOrder cost p (p.step .ofOrder cost) := by
    rw [hq.slack, if_neg hout]
    rfl
  have hslack' : (p'.step .ofOrder cost').slack[j] =
      (p'.seen .ofOrder cost')[j] - Probe.price .ofOrder cost' p' (p'.step .ofOrder cost') := by
    rw [hq'.slack, hvisited, if_neg hout]
    rfl
  -- What is left of the gap is taken off with the price; distances of the new row fall alike.
  rw [hslack, hslack']
  rcases l.seen_cases hshift w w' hdone hdone' hj (hq.visited ▸ hout)
    with ⟨heq, hlink⟩ | ⟨hfar, hfar'⟩
  · exact Or.inl ⟨by linarith, hlink⟩
  · right
    rw [w.free_step hdone, w'.free_step hdone']
    exact ⟨sub_lt_sub_right hfar _, sub_lt_sub_right hfar' _⟩

theorem link_step {j : Slot N} (hj : j ≠ 0)
    (hmem : j ∈ (p.step .ofOrder cost).column :: (p.step .ofOrder cost).visited) :
    (p'.step .ofOrder cost').cameFrom[j] = (p.step .ofOrder cost).cameFrom[j] := by
  have hq := w.reaches hdone
  have hq' := w'.reaches hdone'
  rcases List.mem_cons.mp hmem with rfl | hold
  · -- The reached column is not out of reach, so it is alike.
    rcases l.seen_cases hshift w w' hdone hdone' hj hq.column_fresh with ⟨_, hlink⟩ | ⟨hfar, _⟩
    · exact hlink
    · exact absurd (w.price_le hdone) (not_le.mpr hfar)
  · rw [hq.cameFrom_of_mem hold,
      hq'.cameFrom_of_mem (l.visited_eq w w' hdone hdone' ▸ hold)]
    exact l.link j (hq.visited ▸ hold) hj

/-- The other search raises the rows of the same tree, by its own price. -/
theorem rowPotential_eq (r : Slot N) : (p'.step .ofOrder cost').rowPotential[r] =
    if r ∈ (p.step .ofOrder cost).visited.map (fun j => p.rowOf[j]) then
      p'.rowPotential[r] + (Probe.price .ofOrder cost p (p.step .ofOrder cost) + gap (shift i) p)
    else p'.rowPotential[r] := by
  rw [(w'.reaches hdone').rowPotential, l.visited_eq w w' hdone hdone', l.rowOf,
    (l.column_eq hshift w w' hdone hdone').2]
  rfl

theorem colPotential_eq (j : Slot N) : (p'.step .ofOrder cost').colPotential[j] =
    if j ∈ (p.step .ofOrder cost).visited then
      p'.colPotential[j] - (Probe.price .ofOrder cost p (p.step .ofOrder cost) + gap (shift i) p)
    else p'.colPotential[j] := by
  rw [(w'.reaches hdone').colPotential, l.visited_eq w w' hdone hdone',
    (l.column_eq hshift w w' hdone hdone').2]
  rfl

theorem rowPotential_step {r : Slot N} (hr : r ∈ R) :
    (p'.step .ofOrder cost').rowPotential[r] =
      (p.step .ofOrder cost).rowPotential[r] + shift r := by
  rw [l.rowPotential_eq hshift w w' hdone hdone', (w.reaches hdone).rowPotential]
  by_cases hmem : r ∈ (p.step .ofOrder cost).visited.map (fun j => p.rowOf[j])
  · rcases List.mem_map.mp hmem with ⟨x, hx, rfl⟩
    rw [if_pos hmem, if_pos hmem, l.rowPotential _ hr, gap_eq_zero w hdone hx hr]
    simp only [Arithmetic.ofOrder]
    ring
  · rw [if_neg hmem, if_neg hmem]
    exact l.rowPotential r hr

theorem colPotential_step {j : Slot N} (hj : j ≠ 0) :
    (p'.step .ofOrder cost').colPotential[j] = (p.step .ofOrder cost).colPotential[j] := by
  rw [l.colPotential_eq hshift w w' hdone hdone', (w.reaches hdone).colPotential]
  by_cases hmem : j ∈ (p.step .ofOrder cost).visited
  · have hzero : gap (shift i) p = 0 := if_neg (w.tree.visited_ne_nil (w.reaches hdone) hj hmem)
    rw [if_pos hmem, if_pos hmem, l.colPotential j hj, hzero, add_zero]
    rfl
  · rw [if_neg hmem, if_neg hmem]
    exact l.colPotential j hj

/-- The new row takes up in its potential what the prices of the first step differ by. -/
theorem newRow_step :
    (p'.step .ofOrder cost').rowPotential[i] =
      (p.step .ofOrder cost).rowPotential[i] + shift i := by
  have hmem : i ∈ (p.step .ofOrder cost).visited.map (fun j => p.rowOf[j]) :=
    List.mem_map.mpr ⟨0, w.root_mem hdone, w.tree.rowOf_zero⟩
  rw [l.rowPotential_eq hshift w w' hdone hdone', (w.reaches hdone).rowPotential, if_pos hmem,
    if_pos hmem]
  simp only [Arithmetic.ofOrder]
  linarith [l.newRow]

theorem virtual_step :
    (p'.step .ofOrder cost').colPotential[(0 : Slot N)] + ∑ r ∈ R, shift r + shift i =
      (p.step .ofOrder cost).colPotential[(0 : Slot N)] := by
  rw [l.colPotential_eq hshift w w' hdone hdone', (w.reaches hdone).colPotential,
    if_pos (w.root_mem hdone), if_pos (w.root_mem hdone)]
  simp only [Arithmetic.ofOrder]
  linarith [l.virtual]

/-- A step keeps what two searches have in common. -/
theorem step : Abreast shift cost cost' R i y (p.step .ofOrder cost) (p'.step .ofOrder cost') := by
  have hq := w.reaches hdone
  have hgap : gap (shift i) (p.step .ofOrder cost) = 0 :=
    if_neg (hq.visited ▸ List.cons_ne_nil _ _)
  exact
    { rowOf := by rw [hq.rowOf, (w'.reaches hdone').rowOf, l.rowOf]
      visited := l.visited_eq w w' hdone hdone'
      column := (l.column_eq hshift w w' hdone hdone').1
      rowPotential := fun r hr => l.rowPotential_step hshift w w' hdone hdone' hr
      newRow := by rw [hgap, add_zero, l.newRow_step hshift w w' hdone hdone']
      colPotential := fun j hj => l.colPotential_step hshift w w' hdone hdone' hj
      virtual := by rw [hgap, add_zero, l.virtual_step hshift w w' hdone hdone']
      slack := fun j hj hout => by
        rw [hgap, add_zero]
        exact l.slack_step hshift w w' hdone hdone' hj hout
      link := fun j hmem hj => l.link_step hshift w w' hdone hdone' hj hmem }

end Abreast

end Search

end Roster
