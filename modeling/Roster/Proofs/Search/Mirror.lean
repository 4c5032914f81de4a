import Mathlib.Data.List.Forall2
import Roster.Proofs.Search.Insertion

/-!
# A Search That Mirrors Another

Two searches of one square in two arithmetics. If the numbers of the first stand for those of
the second and its operations do what the others do, the first goes the way of the second, and
hands the same rows back. Numbers may do so in a range only, so the second search says which of
its numbers have to be in it: those that it comes to, and no others.

Slacks are left out of what the states of two searches have in common. A column that was never
improved has the cap for a slack, less some shifts, and nothing is known of two such slacks. It
is enough that the two searches see alike what is outside their trees.

## Main definitions

* `Arithmetic.Follows`: Numbers that stand for others, and are worked with as these are.
* `State.Mirrors`, `Probe.Mirrors`: What two searches have in common.
* `Probe.SeesAlike`: What two searches see alike.

## Theorems

* `leastBy_forall₂`: Two rules that displace alike choose alike.
* `Probe.Mirrors.seesAlike`: When two searches see alike.
* `Probe.Mirrors.step`: Two searches that see alike step alike.
* `Probe.Mirrors.exists_state`: Where both end, they hand the same rows back.
-/

namespace Roster

variable {α β : Type} {stands : α → β → Prop}

/-- Numbers of one arithmetic stand for numbers of another: what the first does with the former
    is what the second does with the latter, as long as the result fits. -/
structure Arithmetic.Follows (A : Arithmetic α) (B : Arithmetic β) (stands : α → β → Prop)
    (fits : β → Prop) : Prop where
  zero : stands A.zero B.zero
  add : ∀ {x y a b}, stands x a → stands y b → fits (B.add a b) →
    stands (A.add x y) (B.add a b)
  sub : ∀ {x y a b}, stands x a → stands y b → fits (B.sub a b) →
    stands (A.sub x y) (B.sub a b)
  less : ∀ {x y a b}, stands x a → stands y b → A.less x y = B.less a b
  least : ∀ {x xs a as}, List.Forall₂ stands (x :: xs) (a :: as) →
    (A.least x xs).val = (B.least a as).val

theorem leastBy_forall₂ {d : α → α → Bool} {d' : β → β → Bool}
    (hd : ∀ {x y a b}, stands x a → stands y b → d x y = d' a b) :
    ∀ {xs : List α} {as : List β} {x : α} {a : β}, List.Forall₂ stands (x :: xs) (a :: as) →
      (leastBy d x xs).val = (leastBy d' a as).val := by
  intro xs
  induction xs with
  | nil =>
      intro as x a h
      cases h with
      | cons hx hrest =>
          cases hrest
          rfl
  | cons y ys ih =>
      intro as x a h
      cases h with
      | cons hx hrest =>
          cases as with
          | nil => cases hrest
          | cons b bs =>
              -- Both have the same place in the rest, and compare what is there with the first.
              have hplace := ih hrest
              have hlt := (leastBy d' b bs).isLt
              have hchosen : stands ((y :: ys).get (leastBy d y ys))
                  ((b :: bs).get (leastBy d' b bs)) := by
                have hget := hrest.get (leastBy d y ys).isLt (hplace ▸ hlt)
                rw [show (leastBy d' b bs) = ⟨(leastBy d y ys).val, hplace ▸ hlt⟩ from
                  Fin.ext hplace.symm]
                exact hget
              simp only [leastBy, hd hchosen hx]
              split
              · exact congrArg (· + 1) hplace
              · rfl

namespace Search

variable {N : Nat} {A : Arithmetic α} {B : Arithmetic β} {fits : β → Prop}
  {cost : Slot N → Slot N → α} {cost' : Slot N → Slot N → β}

/-- The same rows and links, and potentials that stand for each other. -/
structure State.Mirrors (stands : α → β → Prop) (s : State α N) (t : State β N) : Prop where
  rowPotential : ∀ r : Slot N, stands s.rowPotential[r] t.rowPotential[r]
  colPotential : ∀ j : Slot N, stands s.colPotential[j] t.colPotential[j]
  rowOf : s.rowOf = t.rowOf
  cameFrom : s.cameFrom = t.cameFrom

namespace State.Mirrors

theorem start (hA : A.Follows B stands fits) :
    Mirrors stands (State.start A N) (State.start B N) where
  rowPotential := fun r => by simpa only [State.start, replicate_get] using hA.zero
  colPotential := fun j => by simpa only [State.start, replicate_get] using hA.zero
  rowOf := rfl
  cameFrom := rfl

theorem reduced {s : State α N} {t : State β N} (hA : A.Follows B stands fits)
    (h : Mirrors stands s t) {r j : Slot N} (hcost : stands (cost r j) (cost' r j))
    (hrow : fits (B.sub (cost' r j) t.rowPotential[r]))
    (hfits : fits (Probe.reduced B cost' t r j)) :
    stands (Probe.reduced A cost s r j) (Probe.reduced B cost' t r j) :=
  hA.sub (hA.sub hcost (h.rowPotential r) hrow) (h.colPotential j) hfits

end State.Mirrors

namespace Probe

/-- The same tree, and states that mirror each other. -/
structure Mirrors (stands : α → β → Prop) (p : Probe α N) (q : Probe β N) : Prop where
  state : State.Mirrors stands p.toState q.toState
  visited : p.visited = q.visited
  column : p.column = q.column

/-- Two searches improve the same columns, and the slacks that they see then stand for each
    other. -/
structure SeesAlike (stands : α → β → Prop) (A : Arithmetic α) (cost : Slot N → Slot N → α)
    (p : Probe α N) (B : Arithmetic β) (cost' : Slot N → Slot N → β) (q : Probe β N) : Prop where
  improves : ∀ j, p.enter.improves A cost j = q.enter.improves B cost' j
  seen : ∀ j, j ≠ 0 → j ∉ q.column :: q.visited →
    stands (p.seen A cost)[j] (q.seen B cost')[j]

theorem step_column {p : Probe α N} {j : Slot N} {js : List (Slot N)}
    (h : outside (p.column :: p.visited) = j :: js) :
    (p.step A cost).column = nearest A (p.seen A cost) j js := by
  simp only [step, enter, scan, h]
  rfl

theorem nearest_mirrors (hA : A.Follows B stands fits) {slack : Vector α (N + 1)}
    {slack' : Vector β (N + 1)} {j : Slot N} {js : List (Slot N)}
    (h : ∀ k ∈ j :: js, stands slack[k] slack'[k]) :
    nearest A slack j js = nearest B slack' j js := by
  have hall : List.Forall₂ stands (slack[j] :: js.map fun k => slack[k])
      (slack'[j] :: js.map fun k => slack'[k]) := by
    have hmap : List.Forall₂ stands ((j :: js).map fun k => slack[k])
        ((j :: js).map fun k => slack'[k]) := by
      rw [List.forall₂_map_left_iff, List.forall₂_map_right_iff, List.forall₂_same]
      exact h
    exact hmap
  exact congrArg (j :: js).get (Fin.ext (hA.least hall))

namespace Mirrors

variable {p : Probe α N} {q : Probe β N}

theorem done (h : Mirrors stands p q) : p.done = q.done := by
  rw [Probe.done, Probe.done, h.state.rowOf, h.column]

/-- Two searches see alike if what they come to see stands for each other, and slacks do so as
    well or are improved in both. -/
theorem seesAlike (hA : A.Follows B stands fits) (h : Mirrors stands p q)
    (hreduced : ∀ j, j ≠ 0 → j ∉ q.column :: q.visited →
      stands (reduced A cost p.toState p.rowOf[p.column] j)
        (reduced B cost' q.toState q.rowOf[q.column] j))
    (hslack : ∀ j, j ≠ 0 → j ∉ q.column :: q.visited → stands p.slack[j] q.slack[j] ∨
      A.less (reduced A cost p.toState p.rowOf[p.column] j) p.slack[j] = true ∧
        B.less (reduced B cost' q.toState q.rowOf[q.column] j) q.slack[j] = true) :
    SeesAlike stands A cost p B cost' q := by
  have htree : p.column :: p.visited = q.column :: q.visited := by rw [h.column, h.visited]
  have himproves : ∀ j, p.enter.improves A cost j = q.enter.improves B cost' j := by
    intro j
    rw [Bool.eq_iff_iff, improves_iff, improves_iff, htree]
    refine and_congr_right fun hj => and_congr_right fun hout => ?_
    rcases hslack j hj hout with hstands | ⟨hp, hq⟩
    · rw [hA.less (hreduced j hj hout) hstands]
    · exact iff_of_true hp hq
  refine ⟨himproves, fun j hj hout => ?_⟩
  rw [seen_get, seen_get, himproves]
  by_cases himp : q.enter.improves B cost' j = true
  · rw [if_pos himp, if_pos himp]
    exact hreduced j hj hout
  · -- A slack that is kept in both was not to be improved in either.
    rw [if_neg himp, if_neg himp]
    rcases hslack j hj hout with hstands | ⟨_, hq⟩
    · exact hstands
    · exact absurd (improves_iff.mpr ⟨hj, hout, hq⟩) himp

section Step

variable (hA : A.Follows B stands fits) (h : Mirrors stands p q)
  (hsees : SeesAlike stands A cost p B cost' q) (hq : Reaches B cost' q (q.step B cost'))
include hA h hsees hq

theorem column_step : (p.step A cost).column = (q.step B cost').column := by
  have hmem : (q.step B cost').column ∈ outside (q.column :: q.visited) :=
    mem_outside.mpr ⟨hq.column_ne_zero, hq.column_fresh⟩
  cases hcase : outside (q.column :: q.visited) with
  | nil => exact absurd (hcase ▸ hmem) List.not_mem_nil
  | cons j js =>
      have hcase' : outside (p.column :: p.visited) = j :: js := by
        rw [h.column, h.visited]
        exact hcase
      rw [step_column hcase, step_column hcase']
      refine nearest_mirrors hA fun k hk => ?_
      have hout := mem_outside.mp (hcase ▸ hk)
      exact hsees.seen k hout.1 hout.2

omit hA hsees in
theorem reaches : Reaches A cost p (p.step A cost) := by
  refine step_reaches hq.column_ne_zero ?_
  rw [h.column, h.visited]
  exact hq.column_fresh

theorem price_step :
    stands (price A cost p (p.step A cost)) (price B cost' q (q.step B cost')) := by
  rw [price, price, h.column_step hA hsees hq]
  exact hsees.seen _ hq.column_ne_zero hq.column_fresh

omit hA hsees in
theorem visited_step : (p.step A cost).visited = (q.step B cost').visited := by
  rw [(h.reaches hq).visited, hq.visited, h.visited, h.column]

/-- Two searches that see alike step alike, if all that the second comes to fits. -/
theorem step (hrow : ∀ r : Slot N, fits (q.step B cost').rowPotential[r])
    (hcol : ∀ j : Slot N, fits (q.step B cost').colPotential[j]) :
    Mirrors stands (p.step A cost) (q.step B cost') := by
  have hp : Reaches A cost p (p.step A cost) := h.reaches hq
  have hvisited : (p.step A cost).visited = (q.step B cost').visited := h.visited_step hq
  have hprice := h.price_step hA hsees hq
  refine ⟨⟨fun r => ?_, fun j => ?_, ?_, ?_⟩, hvisited, h.column_step hA hsees hq⟩
  · -- The rows of the tree gather the same price, and the columns of the tree lose it.
    have hfits := hrow r
    rw [hq.rowPotential] at hfits ⊢
    rw [hp.rowPotential, hvisited, h.state.rowOf]
    by_cases hr : r ∈ (q.step B cost').visited.map fun j => q.rowOf[j]
    · rw [if_pos hr] at hfits ⊢
      rw [if_pos hr]
      exact hA.add (h.state.rowPotential r) hprice hfits
    · rw [if_neg hr, if_neg hr]
      exact h.state.rowPotential r
  · have hfits := hcol j
    rw [hq.colPotential] at hfits ⊢
    rw [hp.colPotential, hvisited]
    by_cases hj : j ∈ (q.step B cost').visited
    · rw [if_pos hj] at hfits ⊢
      rw [if_pos hj]
      exact hA.sub (h.state.colPotential j) hprice hfits
    · rw [if_neg hj, if_neg hj]
      exact h.state.colPotential j
  · rw [hp.rowOf, hq.rowOf, h.state.rowOf]
  · -- Links are set where slacks are improved.
    refine Vector.ext fun k hk => ?_
    have hlink := hp.cameFrom ⟨k, hk⟩
    rw [hsees.improves, h.column, h.state.cameFrom] at hlink
    exact hlink.trans (hq.cameFrom ⟨k, hk⟩).symm

/-- Outside the tree the slacks stand for each other after the step. -/
theorem slack_step {j : Slot N} (hj : j ≠ 0) (hout : j ∉ (q.step B cost').visited)
    (hfits : fits (q.step B cost').slack[j]) :
    stands (p.step A cost).slack[j] (q.step B cost').slack[j] := by
  rw [hq.slack, if_neg hout] at hfits ⊢
  rw [(h.reaches hq).slack, if_neg (h.visited_step hq ▸ hout)]
  exact hA.sub (hsees.seen j hj (hq.visited ▸ hout)) (h.price_step hA hsees hq) hfits

end Step

/-- Where two searches have ended, the rows are handed back along the same way. -/
theorem exists_state {reach : α} {reach' : β} {s : State α N} {t next : State β N} {i : Slot N}
    (h : Mirrors stands (insertRow A cost reach s i).probe (insertRow B cost' reach' t i).probe)
    (hnext : (insertRow B cost' reach' t i).state = some next) :
    ∃ here, (insertRow A cost reach s i).state = some here ∧
      State.Mirrors stands here next := by
  -- The way back is the same, as it is read off the same links.
  rcases insertRow_state hnext with ⟨columns, hc, rfl⟩
  rw [← h.state.cameFrom, ← h.column] at hc
  refine ⟨_, congrArg (Option.map _) hc, h.state.rowPotential, h.state.colPotential, ?_,
    h.state.cameFrom⟩
  exact congrArg₂ (fun cameFrom rowOf => flip cameFrom columns rowOf) h.state.cameFrom
    h.state.rowOf

end Mirrors

end Probe

end Search

end Roster
