import Mathlib.Algebra.Module.Basic
import Mathlib.Algebra.Order.BigOperators.Group.Finset
import Mathlib.Algebra.Order.Ring.Rat
import Mathlib.Data.Finset.Image
import Roster.Proofs.Search.Balance

/-!
# Every Prefix Is Cheapest

A run that is stopped after some rows has matched them at the least cost, among all ways to
give these rows columns of their own. So optimality is not only in the end of a run; each
insertion passes it on.

The bound is that of potentials: no row and column cost less together than their potentials,
and columns that are not used have none, so the potentials of the matched rows and of all
columns bound every assignment from below and are met by the matching. The columns that are
still free count in the bound, and only their zero potentials let them drop out of it.

What the bound amounts to can be read off a single number. Every step gives as much to the rows
of the tree as it takes from its columns, which are as many, and the virtual column is always
one of these. So all potentials together are zero at any time, and the virtual column has lost
what the matching costs.

## Main definitions

* `State.sumPotentials`: All potentials together.
* `Assigns`: Rows with columns of their own.
* `assignedCost`: What an assignment costs.
* `HoldsCheapest`: A state whose matching is a cheapest assignment.

## Theorems

* `Probe.Reaches.sum_potentials`: A step keeps the sum of all potentials.
* `insertRow_sum_potentials`: So does an insertion.
* `inserted_sum_potentials`: All potentials together are zero at any time.
* `Placed.exists_assigns`: Placed rows make an assignment.
* `Balanced.le_sum`, `Balanced.sum_eq`: Potentials bound every assignment, and the matching
  meets the bound.
* `stages_prefix_cheapest`: The matching after each inserted row is cheapest, and the virtual
  column holds its cost.
-/

namespace Roster

namespace Search

variable {α : Type} {N : Nat} [CommRing α] [LinearOrder α] {cost : Slot N → Slot N → α}
  {reach : α}

/-! ### The sum of all potentials -/

/-- All potentials together. -/
def State.sumPotentials (s : State α N) : α :=
  ∑ r : Slot N, s.rowPotential[r] + ∑ j : Slot N, s.colPotential[j]

omit [LinearOrder α] in
theorem sum_ite_mem {L : List (Slot N)} (hL : L.Nodup) (f : Slot N → α) (d : α) :
    ∑ r : Slot N, (if r ∈ L then f r + d else f r) = ∑ r : Slot N, f r + L.length • d := by
  have hsplit : ∀ r : Slot N, (if r ∈ L then f r + d else f r) = f r + if r ∈ L then d else 0 := by
    intro r
    by_cases hr : r ∈ L
    · rw [if_pos hr, if_pos hr]
    · rw [if_neg hr, if_neg hr, add_zero]
  have hcard : (Finset.univ.filter fun r : Slot N => r ∈ L) = L.toFinset := by
    ext r
    simp only [Finset.mem_filter, Finset.mem_univ, true_and, List.mem_toFinset]
  rw [Finset.sum_congr rfl fun r _ => hsplit r, Finset.sum_add_distrib, ← Finset.sum_filter,
    Finset.sum_const, hcard, List.toFinset_card_of_nodup hL]

section Step

variable {s : State α N} {R : Finset (Slot N)} {i : Slot N} {p q : Probe α N}

/-- A step gives to rows what it takes from columns, and the tree has as many of the one as of
    the other. -/
theorem Probe.Reaches.sum_potentials (hq : Probe.Reaches .ofOrder cost p q) (h : Tree s i p)
    (ht : Tree s i q) (hs : Placed s.rowOf 0 R) (hi : i ∉ R) :
    q.sumPotentials = p.sumPotentials := by
  have hcols : q.visited.Nodup := (List.nodup_cons.mp ht.nodup).2
  -- The rows of the tree stand in one column each.
  have hrows : (q.visited.map fun j => p.rowOf[j]).Nodup :=
    hcols.map_on fun x hx y _ heq => h.once hs hi heq (hq.rowOf ▸ ht.occupied x hx)
  have hrow : ∑ r : Slot N, q.rowPotential[r] = ∑ r : Slot N, p.rowPotential[r] +
      q.visited.length • Probe.price .ofOrder cost p q := by
    rw [Finset.sum_congr rfl fun r _ => hq.rowPotential r]
    refine (sum_ite_mem hrows _ _).trans ?_
    rw [List.length_map]
  have hcol : ∑ j : Slot N, q.colPotential[j] = ∑ j : Slot N, p.colPotential[j] +
      q.visited.length • (-Probe.price .ofOrder cost p q) := by
    rw [← sum_ite_mem hcols]
    refine Finset.sum_congr rfl fun j _ => (hq.colPotential j).trans ?_
    rw [← sub_eq_add_neg]
    rfl
  rw [State.sumPotentials, State.sumPotentials, hrow, hcol, smul_neg]
  ring

/-- Handing rows back moves no potential, so an insertion keeps their sum. -/
theorem insertRow_sum_potentials {next : State α N} (hs : Settled s R) (hi : i ∉ R) (hi0 : i ≠ 0)
    (h : (insertRow .ofOrder cost reach s i).state = some next) :
    next.sumPotentials = s.sumPotentials := by
  rcases hs.placed.exists_vacant hi hi0 with ⟨y, hy, hvacant⟩
  have hkeep : ∀ p : Probe α N, Tree s i p ∧ p.sumPotentials = s.sumPotentials → p.done = false →
      Tree s i (p.step .ofOrder cost) ∧
        (p.step .ofOrder cost).sumPotentials = s.sumPotentials := by
    rintro p ⟨htree, hsum⟩ hdone
    have hq : Probe.Reaches .ofOrder cost p (p.step .ofOrder cost) :=
      htree.reaches hdone hy hvacant
    have hnext := htree.of_reaches hdone hq
    exact ⟨hnext, (hq.sum_potentials htree hnext hs.placed hi).trans hsum⟩
  -- The step lemma carries the sum through the whole search.
  have hprobe := (Probe.run_keeps hkeep (N + 1) (Probe.start s i reach)
    ⟨Tree.start hi0 hs.linked, rfl⟩ (Probe.start_not_done hi0)).2
  rcases insertRow_state h with ⟨columns, _, rfl⟩
  exact hprobe

end Step

/-- At any time all potentials together are zero. -/
theorem inserted_sum_potentials {s : State α N} {k : Nat}
    (h : inserted .ofOrder cost reach (State.start .ofOrder N) ((rows N).take k) = some s) :
    s.sumPotentials = 0 := by
  have hstart : (State.start (.ofOrder : Arithmetic α) N).sumPotentials = 0 := by
    simp only [State.sumPotentials, State.start, replicate_get, Finset.sum_const]
    exact (congrArg₂ (· + ·) (smul_zero _) (smul_zero _)).trans (add_zero 0)
  have hstep : ∀ (s : State α N) (R : Finset (Slot N)) (i : Slot N) (next : State α N),
      Settled s R ∧ s.sumPotentials = 0 → i ∉ R → i ≠ 0 →
      (insertRow .ofOrder cost reach s i).state = some next →
      Settled next (insert i R) ∧ next.sumPotentials = 0 := by
    rintro s R i next ⟨hs, hsum⟩ hi hi0 hnext
    exact ⟨hs.insertRow hi hi0 hnext, (insertRow_sum_potentials hs hi hi0 hnext).trans hsum⟩
  exact (inserted_keeps hstep _ _ ∅ s ⟨Settled.start _, hstart⟩ (fresh_take N k) h).2

/-! ### Assignments -/

/-- The rows of `R` with columns of their own. -/
structure Assigns (R : Finset (Slot N)) (f : Slot N → Slot N) : Prop where
  ne_zero : ∀ r ∈ R, f r ≠ 0
  once : ∀ r ∈ R, ∀ r' ∈ R, f r = f r' → r = r'

/-- What an assignment costs. -/
def assignedCost (cost : Slot N → Slot N → α) (R : Finset (Slot N)) (f : Slot N → Slot N) : α :=
  ∑ r ∈ R, cost r (f r)

/-- The state `s` matches the rows of `R` as the assignment `f` does, which is a cheapest one,
    and its virtual column holds what that costs. -/
structure HoldsCheapest (cost : Slot N → Slot N → α) (s : State α N) (R : Finset (Slot N))
    (f : Slot N → Slot N) : Prop where
  assigns : Assigns R f
  rowOf_iff : ∀ j r : Slot N, j ≠ 0 → r ≠ 0 → (s.rowOf[j] = r ↔ r ∈ R ∧ f r = j)
  least : ∀ g, Assigns R g → assignedCost cost R f ≤ assignedCost cost R g
  virtual : -s.colPotential[(0 : Slot N)] = assignedCost cost R f

omit [CommRing α] [LinearOrder α] in
theorem Placed.exists_assigns {rowOf : Vector (Slot N) (N + 1)} {R : Finset (Slot N)}
    (h : Placed rowOf 0 R) : ∃ f, Assigns R f ∧
      ∀ j r : Slot N, j ≠ 0 → r ≠ 0 → (rowOf[j] = r ↔ r ∈ R ∧ f r = j) := by
  have hex : ∀ r : Slot N, ∃ j : Slot N, r ∈ R → j ≠ 0 ∧ rowOf[j] = r := by
    intro r
    by_cases hr : r ∈ R
    · rcases ((h.mem_iff r).mp hr).2 with ⟨j, hj⟩
      exact ⟨j, fun _ => hj⟩
    · exact ⟨0, fun hr' => absurd hr' hr⟩
  -- A row stands in one column only, so there is no other choice.
  choose f hf using hex
  refine ⟨f, ⟨fun r hr => (hf r hr).1, fun r hr r' hr' heq => ?_⟩, fun j r hj hr => ⟨?_, ?_⟩⟩
  · rw [← (hf r hr).2, ← (hf r' hr').2, heq]
  · intro hrow
    have hmem : r ∈ R := (h.mem_iff r).mpr ⟨hr, j, hj, hrow⟩
    have heq : rowOf[f r] = rowOf[j] := (hf r hmem).2.trans hrow.symm
    exact ⟨hmem, h.once _ _ (hf r hmem).1 hj heq (by rw [heq, hrow]; exact hr)⟩
  · rintro ⟨hmem, rfl⟩
    exact (hf r hmem).2

namespace Balanced

variable {s : State α N} {R : Finset (Slot N)} {f : Slot N → Slot N}

theorem sumPotentials_eq (b : Balanced cost s R) : s.sumPotentials =
    s.colPotential[(0 : Slot N)] +
      (∑ r ∈ R, s.rowPotential[r] + ∑ j ∈ Finset.univ.erase (0 : Slot N), s.colPotential[j]) := by
  have hrow : ∑ r ∈ R, s.rowPotential[r] = ∑ r : Slot N, s.rowPotential[r] :=
    Finset.sum_subset (Finset.subset_univ R) fun r _ hr => b.untouched r hr
  have hcol := Finset.add_sum_erase Finset.univ (fun j : Slot N => s.colPotential[j])
    (Finset.mem_univ 0)
  rw [State.sumPotentials, hrow, ← hcol]
  ring

variable [IsStrictOrderedRing α]

/-- The potentials of the matched rows and of all columns bound every assignment from below. -/
theorem le_sum (b : Balanced cost s R) (h : Assigns R f) :
    ∑ r ∈ R, s.rowPotential[r] + ∑ j ∈ Finset.univ.erase (0 : Slot N), s.colPotential[j] ≤
      assignedCost cost R f := by
  have hsub : R.image f ⊆ Finset.univ.erase 0 := by
    intro j hj
    rcases Finset.mem_image.mp hj with ⟨r, hr, rfl⟩
    exact Finset.mem_erase.mpr ⟨h.ne_zero r hr, Finset.mem_univ _⟩
  -- The columns that are not used have no positive potential.
  have hcols : ∑ j ∈ Finset.univ.erase (0 : Slot N), s.colPotential[j] ≤
      ∑ r ∈ R, s.colPotential[f r] := by
    have hrest : ∑ j ∈ Finset.univ.erase 0 \ R.image f, s.colPotential[j] ≤ 0 :=
      Finset.sum_nonpos fun j hj =>
        b.nonpos j (Finset.mem_erase.mp (Finset.mem_sdiff.mp hj).1).1
    rw [← Finset.sum_sdiff hsub, Finset.sum_image fun r hr r' hr' => h.once r hr r' hr']
    linarith
  have hrows : ∑ r ∈ R, (s.rowPotential[r] + s.colPotential[f r]) ≤ assignedCost cost R f := by
    refine Finset.sum_le_sum fun r hr => ?_
    have hcell := b.feasible r hr (f r) (h.ne_zero r hr)
    rw [Probe.reduced_eq] at hcell
    linarith
  rw [Finset.sum_add_distrib] at hrows
  linarith

omit [IsStrictOrderedRing α] in
theorem sum_eq (b : Balanced cost s R) (h : Assigns R f)
    (hrow : ∀ j r : Slot N, j ≠ 0 → r ≠ 0 → (s.rowOf[j] = r ↔ r ∈ R ∧ f r = j)) :
    ∑ r ∈ R, s.rowPotential[r] + ∑ j ∈ Finset.univ.erase (0 : Slot N), s.colPotential[j] =
      assignedCost cost R f := by
  have hR : ∀ r ∈ R, r ≠ 0 := fun r hr => ((b.placed.mem_iff r).mp hr).1
  -- A column that is not used has no row, hence no potential.
  have hcols : ∑ r ∈ R, s.colPotential[f r] =
      ∑ j ∈ Finset.univ.erase (0 : Slot N), s.colPotential[j] := by
    rw [← Finset.sum_image (f := fun j => s.colPotential[j])
      fun r hr r' hr' => h.once r hr r' hr']
    refine Finset.sum_subset ?_ fun j hj hout => b.vacant j (Finset.mem_erase.mp hj).1 ?_
    · intro j hj
      rcases Finset.mem_image.mp hj with ⟨r, hr, rfl⟩
      exact Finset.mem_erase.mpr ⟨h.ne_zero r hr, Finset.mem_univ _⟩
    · by_contra hne
      rcases (hrow j _ (Finset.mem_erase.mp hj).1 hne).mp rfl with ⟨hmem, heq⟩
      exact hout (Finset.mem_image.mpr ⟨_, hmem, heq⟩)
  rw [← hcols, ← Finset.sum_add_distrib, assignedCost]
  refine Finset.sum_congr rfl fun r hr => ?_
  have htight := b.tight (f r) r (h.ne_zero r hr)
    ((hrow _ _ (h.ne_zero r hr) (hR r hr)).mpr ⟨hr, rfl⟩) (hR r hr)
  rw [Probe.reduced_eq, sub_sub, sub_eq_zero] at htight
  exact htight.symm

/-- A balanced state whose potentials sum up to zero holds a cheapest assignment. -/
theorem holdsCheapest (b : Balanced cost s R) (hsum : s.sumPotentials = 0) :
    ∃ f, HoldsCheapest cost s R f := by
  rcases b.placed.exists_assigns with ⟨f, h, hrow⟩
  have heq := b.sum_eq h hrow
  refine ⟨f, h, hrow, fun g hg => heq ▸ b.le_sum hg, ?_⟩
  rw [b.sumPotentials_eq, heq] at hsum
  exact neg_eq_of_add_eq_zero_right hsum

end Balanced

/-! ### Rational costs -/

/-- After each inserted row the matching is a cheapest one among all ways to give the rows so
    far columns of their own, and the virtual column holds its cost. Costs may have any sign, as
    long as they are below the cap. -/
theorem stages_prefix_cheapest {N : Nat} (cost : Slot N → Slot N → ℚ) (reach : ℚ)
    (hcost : ∀ r j, r ≠ 0 → j ≠ 0 → cost r j < reach) :
    ∀ k, k < N → ∃ stage s f, (stages .ofOrder N cost reach)[k]? = some stage ∧
      stage.row.val = k + 1 ∧ stage.state = some s ∧
      (∀ r : Slot N, r ∈ ((rows N).take (k + 1)).toFinset ↔ r ≠ 0 ∧ r.val ≤ k + 1) ∧
      HoldsCheapest cost s ((rows N).take (k + 1)).toFinset f := by
  intro k hk
  rcases exists_inserted hcost (k + 1) with ⟨s, hs, b⟩
  rcases exists_stage_of_inserted hk hs with ⟨stage, hstage, hrow, hstate⟩
  rcases b.holdsCheapest (inserted_sum_potentials hs) with ⟨f, hf⟩
  exact ⟨stage, s, f, hstage, hrow, hstate, fun r => mem_take_rows, hf⟩

/-- Costs at which every inserted row pushes those before it one column back. -/
def pushedCosts (r j : Slot 3) : ℚ := -(r.val * j.val : ℕ)

theorem stages_prefix_cheapest_pushedCosts :
    (∀ r j : Slot 3, r ≠ 0 → j ≠ 0 → pushedCosts r j < 1) ∧
    ∀ k, k < 3 → ∃ stage s f, (stages .ofOrder 3 pushedCosts 1)[k]? = some stage ∧
      stage.row.val = k + 1 ∧ stage.state = some s ∧
      (∀ r : Slot 3, r ∈ ((rows 3).take (k + 1)).toFinset ↔ r ≠ 0 ∧ r.val ≤ k + 1) ∧
      HoldsCheapest pushedCosts s ((rows 3).take (k + 1)).toFinset f := by
  have hcost : ∀ r j : Slot 3, r ≠ 0 → j ≠ 0 → pushedCosts r j < 1 := by decide +kernel
  exact ⟨hcost, stages_prefix_cheapest pushedCosts 1 hcost⟩

end Search

end Roster
