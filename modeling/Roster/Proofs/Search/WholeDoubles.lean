import Roster.Proofs.Number.WholeArithmetic
import Roster.Proofs.Search.Magnitude
import Roster.Proofs.Search.Mirror

/-!
# Whole Costs in Doubles

With whole costs a search in doubles rounds nothing, as long as twice the greatest cost and all
costs of a matching together have at most fifty-three binary digits. It mirrors the search in
exact arithmetic then, step for step, and ends as that one does.

The cap is the only number that need not be whole or small. It has to lie above twice the
greatest cost. Then a row sees every column below the cap when it comes in, and the first step
puts reduced costs in place of all the slacks that were the cap.

## Main definitions

* `StandsFor`, `InRange`: Doubles of whole values, and the values that they can have.
* `WholeCosts`: Whole costs in doubles, with bounds at which no sum of them is rounded.
* `Alongside`: A search in doubles at a moment of the exact one.

## Theorems

* `double_follows`: Arithmetic of such doubles is arithmetic of what they stand for.
* `Alongside.step`: A step in doubles mirrors the exact one.
* `exists_mirrored`: So does the insertion of some rows.
* `WholeCosts.linksAfresh`: Every row links afresh.
-/

namespace Roster

namespace Search

/-- A double of a whole value that is exact. -/
def StandsFor (x : Float) (q : ℚ) : Prop := ∃ z : ℤ, q = z ∧ Binary64.IsWhole x z

/-- A whole number that doubles can hold. -/
def InRange (q : ℚ) : Prop := ∃ z : ℤ, q = z ∧ z.natAbs < 2 ^ 53

theorem WholeIn.inRange {low high : ℤ} {x : ℚ} (h : WholeIn low high x) (hlow : -2 ^ 53 < low)
    (hhigh : high < 2 ^ 53) : InRange x := by
  rcases h with ⟨z, rfl, hz, hz'⟩
  exact ⟨z, rfl, by omega⟩

theorem StandsFor.lt_iff {x y : Float} {a b : ℚ} (hx : StandsFor x a) (hy : StandsFor y b) :
    x < y ↔ a < b := by
  rcases hx with ⟨a, rfl, hx⟩
  rcases hy with ⟨b, rfl, hy⟩
  rw [hx.lt_iff hy, Int.cast_lt]

/-- Doubles of whole values are worked with as these values are. -/
theorem double_follows : Arithmetic.double.Follows (.ofOrder (α := ℚ)) StandsFor InRange where
  zero := ⟨0, rfl, .of_toRat? (by decide +kernel) (by decide)⟩
  add := by
    rintro x y _ _ ⟨a, rfl, hx⟩ ⟨b, rfl, hy⟩ ⟨c, hc, hfits⟩
    have hsum : ((a : ℚ) + b) = (c : ℚ) := hc
    have hc' : a + b = c := by exact_mod_cast hsum
    exact ⟨a + b, by push_cast; rfl, hx.add hy (hc' ▸ hfits)⟩
  sub := by
    rintro x y _ _ ⟨a, rfl, hx⟩ ⟨b, rfl, hy⟩ ⟨c, hc, hfits⟩
    have hdiff : ((a : ℚ) - b) = (c : ℚ) := hc
    have hc' : a - b = c := by exact_mod_cast hdiff
    exact ⟨a - b, by push_cast; rfl, hx.sub hy (hc' ▸ hfits)⟩
  less := fun hx hy => decide_eq_decide.mpr (hx.lt_iff hy)
  least := by
    refine fun hall => leastBy_forall₂ (fun {x y a b} hx hy => ?_) hall
    -- No whole double displaces another by being no number.
    have hlt : decide (x < y) = decide (a < b) := decide_eq_decide.mpr (hx.lt_iff hy)
    rcases hx with ⟨_, _, hx⟩
    rcases hy with ⟨_, _, hy⟩
    rw [Arithmetic.displacesDouble, hx.isNaN_eq, hy.isNaN_eq, hlt]
    rfl

variable {N : Nat} {cost : Slot N → Slot N → Float} {exact : Slot N → Slot N → ℤ} {top : ℤ}
  {reach : Float}

/-- Whole costs in doubles, so small that no sum of them is rounded, and far below the cap. -/
structure WholeCosts (cost : Slot N → Slot N → Float) (exact : Slot N → Slot N → ℤ) (top : ℤ)
    (reach : Float) : Prop where
  whole : ∀ r j, r ≠ 0 → j ≠ 0 → Binary64.IsWhole (cost r j) (exact r j)
  within : ∀ r j, r ≠ 0 → j ≠ 0 → 0 ≤ exact r j ∧ exact r j ≤ top
  twice : 2 * top < 2 ^ 53
  all : N * top < 2 ^ 53
  below : ∀ x z, Binary64.IsWhole x z → z ≤ 2 * top → x < reach

/-- A cap for the exact search, above all costs and all reduced ones. -/
def exactReach (top : ℤ) : ℚ := 2 * top + 1

namespace WholeCosts

theorem costsWithin (h : WholeCosts cost exact top reach) :
    CostsWithin (exactCosts exact) (top : ℚ) where
  nonneg := fun r j hr hj => Int.cast_nonneg (h.within r j hr hj).1
  le_top := fun r j hr hj => Int.cast_le.mpr (h.within r j hr hj).2

theorem top_nonneg (h : WholeCosts cost exact top reach) {r : Slot N} (hr : r ≠ 0) : 0 ≤ top :=
  (h.within r r hr hr).1.trans (h.within r r hr hr).2

theorem top_lt (htop : 0 ≤ top) : (top : ℚ) < exactReach top := by
  have hcast : (0 : ℚ) ≤ top := Int.cast_nonneg htop
  rw [exactReach]
  linarith

end WholeCosts

/-- A search in doubles at a moment of the exact search, from states that mirror each other. A
    slack stands for that of the exact search, or it is still to be improved in both. -/
structure Alongside (cost : Slot N → Slot N → Float) (exact : Slot N → Slot N → ℤ) (top : ℤ)
    (t : State ℚ N) (R : Finset (Slot N)) (i : Slot N) (p : Probe Float N) (q : Probe ℚ N)
    (improved : Finset (Slot N)) : Prop where
  mirrors : Probe.Mirrors StandsFor p q
  measured : Measured (exactCosts exact) (exactReach top) top t R i q improved
  slack : ∀ j, j ≠ 0 → j ∉ q.column :: q.visited →
    StandsFor p.slack[j] q.slack[j] ∧ j ∈ improved ∨
    Arithmetic.double.less (Probe.reduced .double cost p.toState p.rowOf[p.column] j)
        p.slack[j] = true ∧
      Arithmetic.ofOrder.less (Probe.reduced .ofOrder (exactCosts exact) q.toState
        q.rowOf[q.column] j) q.slack[j] = true

section Row

variable {t : State ℚ N} {R : Finset (Slot N)} {i : Slot N} {p : Probe Float N} {q : Probe ℚ N}
  {improved : Finset (Slot N)}

/-- What the exact search works with, doubles can hold. -/
theorem Measured.inRange (h : Measured (exactCosts exact) (exactReach top) top t R i q improved)
    (hc : WholeCosts cost exact top reach) (ht : WholePotentials t) (hsum : t.sumPotentials = 0)
    (hcard : R.card + 1 ≤ N) {low high : ℤ} {x : ℚ} (hx : Works exact top q improved low high x) :
    InRange x := by
  have hbounds := hx.bounds (hc.top_nonneg h.row_ne_zero) hc.twice hc.all
  exact (h.works ht hsum hcard hx).inRange hbounds.1 hbounds.2

/-- Reduced costs of matched rows and the new one are not rounded. -/
theorem Measured.standsFor_reduced
    (h : Measured (exactCosts exact) (exactReach top) top t R i q improved)
    (hc : WholeCosts cost exact top reach) (ht : WholePotentials t) {s' : State Float N}
    (hs : State.Mirrors StandsFor s' q.toState) {r j : Slot N} (hr : r ∈ R ∨ r = i) (hj : j ≠ 0) :
    StandsFor (Probe.reduced .double cost s' r j)
      (Probe.reduced .ofOrder (exactCosts exact) q.toState r j) := by
  have htop := hc.top_nonneg h.row_ne_zero
  have hr0 := h.ne_zero hr
  have htwice := hc.twice
  refine hs.reduced double_follows ⟨exact r j, rfl, hc.whole r j hr0 hj⟩ ?_ ?_
  · -- On the way to a reduced cost stands a cost less the potential of its row.
    have hwhole : WholeIn (-top) top (exactCosts exact r j - q.rowPotential[r]) := by
      refine .of_mem (wholeNumbers.sub_mem ⟨exact r j, rfl⟩ ((h.wholePotentials ht).row r)) ?_ ?_
      · have hcost := h.costs.nonneg r j hr0 hj
        have hu := h.rowPotential_le r
        push_cast
        linarith
      · have hcost := h.costs.le_top r j hr0 hj
        have hu := h.rowPotential_nonneg r
        linarith
    exact hwhole.inRange (by omega) (by omega)
  · exact (h.wholeIn_reduced ht hr hj).inRange (by omega) (by omega)

theorem Measured.row_of_open (h : Measured (exactCosts exact) (exactReach top) top t R i q improved)
    (hdone : q.done = false) : q.rowOf[q.column] ∈ R ∨ q.rowOf[q.column] = i := by
  have hocc : q.rowOf[q.column] ≠ 0 := fun h0 => by
    rw [Probe.done_iff.mpr h0] at hdone
    exact absurd hdone Bool.noConfusion
  exact h.tree.row_mem h.balanced.placed hocc

namespace Alongside

theorem step (h : Alongside cost exact top t R i p q improved)
    (hc : WholeCosts cost exact top reach) (ht : WholePotentials t) (hsum : t.sumPotentials = 0)
    (hcard : R.card + 1 ≤ N) (hdone : q.done = false) :
    Alongside cost exact top t R i (p.step .double cost) (q.step .ofOrder (exactCosts exact))
      (improved ∪ q.improvedNow .ofOrder (exactCosts exact)) := by
  have hq := h.measured.reaches hdone
  have hnext := h.measured.next hdone
  have hrow : p.rowOf[p.column] = q.rowOf[q.column] := by
    rw [h.mirrors.state.rowOf, h.mirrors.column]
  have hreduced : ∀ j, j ≠ 0 → j ∉ q.column :: q.visited →
      StandsFor (Probe.reduced .double cost p.toState p.rowOf[p.column] j)
        (Probe.reduced .ofOrder (exactCosts exact) q.toState q.rowOf[q.column] j) := by
    intro j hj _
    rw [hrow]
    exact h.measured.standsFor_reduced hc ht h.mirrors.state (h.measured.row_of_open hdone) hj
  have hsees := h.mirrors.seesAlike double_follows hreduced fun j hj hout =>
    (h.slack j hj hout).imp And.left id
  have hfits : ∀ {low high x}, Works exact top (q.step .ofOrder (exactCosts exact))
      (improved ∪ q.improvedNow .ofOrder (exactCosts exact)) low high x → InRange x :=
    fun hx => hnext.inRange hc ht hsum hcard hx
  refine ⟨h.mirrors.step double_follows hsees hq (fun r => hfits (.rowPotential r)) fun j => ?_,
    hnext, fun j hj hout => Or.inl ?_⟩
  · by_cases hj : j = 0
    · exact hj ▸ hfits .virtual
    · exact hfits (.colPotential j hj)
  · -- A column outside the tree was improved before, or is so now.
    have hout' : j ∉ (q.step .ofOrder (exactCosts exact)).visited :=
      fun hmem => hout (List.mem_cons_of_mem _ hmem)
    have himp : j ∈ improved ∪ q.improvedNow .ofOrder (exactCosts exact) := by
      rcases h.slack j hj (hq.visited ▸ hout') with ⟨_, hmem⟩ | ⟨_, hless⟩
      · exact Finset.mem_union_left _ hmem
      · exact Finset.mem_union_right _ (Probe.mem_improvedNow.mpr
          (Probe.improves_iff.mpr ⟨hj, hq.visited ▸ hout', hless⟩))
    exact ⟨h.mirrors.slack_step double_follows hsees hq hj hout' (hfits (.slack j himp)), himp⟩

end Alongside

/-- A new row sees every column below the cap, in doubles and exactly. -/
theorem WholeCosts.reduced_lt (hc : WholeCosts cost exact top reach) {s : State Float N}
    (h : Measured (exactCosts exact) (exactReach top) top t R i
      (Probe.start t i (exactReach top)) ∅)
    (hs : State.Mirrors StandsFor s t) (ht : WholePotentials t) {j : Slot N} (hj : j ≠ 0) :
    Probe.reduced .double cost s i j < reach ∧
      Probe.reduced .ofOrder (exactCosts exact) t i j < exactReach top := by
  have hstart : State.Mirrors StandsFor (Probe.start s i reach).toState
      (Probe.start t i (exactReach top)).toState :=
    ⟨hs.rowPotential, hs.colPotential, congrArg (put · 0 i) hs.rowOf, hs.cameFrom⟩
  have hstands := h.standsFor_reduced hc ht hstart (Or.inr rfl) hj
  have hle : Probe.reduced .ofOrder (exactCosts exact) t i j ≤ 2 * top :=
    h.reduced_le h.row_ne_zero hj
  refine ⟨?_, hle.trans_lt (lt_add_one _)⟩
  rcases hstands with ⟨z, hz, hwhole⟩
  have hz' : Probe.reduced .ofOrder (exactCosts exact) t i j = z := hz
  rw [hz'] at hle
  exact hc.below _ z hwhole (by exact_mod_cast hle)

theorem Alongside.start (hc : WholeCosts cost exact top reach) {s : State Float N}
    (b : Balanced (exactCosts exact) t R) (hi : i ∉ R) (hi0 : i ≠ 0)
    (hs : State.Mirrors StandsFor s t) (ht : WholePotentials t) :
    Alongside cost exact top t R i (Probe.start s i reach) (Probe.start t i (exactReach top))
      ∅ := by
  have hmeasured : Measured (exactCosts exact) (exactReach top) (top : ℚ) t R i
      (Probe.start t i (exactReach top)) ∅ :=
    ⟨b, hi, hi0, hc.costsWithin, WholeCosts.top_lt (hc.top_nonneg hi0), .outset⟩
  refine ⟨⟨⟨hs.rowPotential, hs.colPotential, congrArg (put · 0 i) hs.rowOf, hs.cameFrom⟩, rfl,
    rfl⟩, hmeasured, fun j hj _ => Or.inr ?_⟩
  -- All slacks are the cap, and the new row sees less than that in every column.
  have hsees := hc.reduced_lt hmeasured hs ht hj
  have hrow : (Probe.start s i reach).rowOf[(Probe.start s i reach).column] = i :=
    (Probe.start_rowOf 0).trans (if_pos rfl)
  have hrow' : (Probe.start t i (exactReach top)).rowOf[(Probe.start t i
      (exactReach top)).column] = i := (Probe.start_rowOf 0).trans (if_pos rfl)
  have hslack : (Probe.start s i reach).slack[j] = reach := replicate_get reach j
  have hslack' : (Probe.start t i (exactReach top)).slack[j] = exactReach top :=
    replicate_get _ j
  rw [hrow, hrow', hslack, hslack']
  exact ⟨decide_eq_true hsees.1, decide_eq_true hsees.2⟩

/-- An insertion in doubles mirrors the exact one. -/
theorem exists_mirrored_insertRow (hc : WholeCosts cost exact top reach) {s : State Float N}
    {next : State ℚ N} (b : Balanced (exactCosts exact) t R) (hi : i ∉ R) (hi0 : i ≠ 0)
    (hcard : R.card + 1 ≤ N) (hsum : t.sumPotentials = 0) (hs : State.Mirrors StandsFor s t)
    (ht : WholePotentials t)
    (hnext : (insertRow .ofOrder (exactCosts exact) (exactReach top) t i).state = some next) :
    ∃ here, (insertRow .double cost reach s i).state = some here ∧
      State.Mirrors StandsFor here next := by
  have hstep : ∀ p q, (∃ improved, Alongside cost exact top t R i p q improved) →
      p.done = false → ∃ improved, Alongside cost exact top t R i (p.step .double cost)
        (q.step .ofOrder (exactCosts exact)) improved := by
    rintro p q ⟨improved, h⟩ hdone
    exact ⟨_, h.step hc ht hsum hcard (h.mirrors.done ▸ hdone)⟩
  have hend : ∀ p q, (∃ improved, Alongside cost exact top t R i p q improved) →
      q.done = p.done := fun p q ⟨_, h⟩ => h.mirrors.done.symm
  rcases Probe.run_keeps_both hend hstep (N + 1) _ _ ⟨∅, Alongside.start hc b hi hi0 hs ht⟩
    (Probe.start_not_done hi0) with ⟨improved, h⟩
  exact h.mirrors.exists_state hnext

end Row

/-- The first rows come in, in doubles as they do exactly. -/
theorem exists_mirrored (hc : WholeCosts cost exact top reach) (k : Nat) (hk : k ≤ N) :
    ∃ s t, inserted .double cost reach (State.start .double N) ((rows N).take k) = some s ∧
      inserted .ofOrder (exactCosts exact) (exactReach top) (State.start .ofOrder N)
        ((rows N).take k) = some t ∧ State.Mirrors StandsFor s t := by
  induction k with
  | zero => exact ⟨_, _, rfl, rfl, State.Mirrors.start double_follows⟩
  | succ k ih =>
      rcases ih (Nat.le_of_succ_le hk) with ⟨s, t, hs, ht, hmirrors⟩
      have hi := succ_not_mem_take hk
      have hi0 := Fin.succ_ne_zero (⟨k, hk⟩ : Fin N)
      have htop := WholeCosts.top_lt (hc.top_nonneg hi0)
      rcases exists_inserted_whole hc.costsWithin htop k with ⟨t', ht', b, hwhole⟩
      rcases Option.some.inj (ht.symm.trans ht') with rfl
      have hbelow : ∀ j, j ≠ 0 → exactCosts exact (Fin.succ ⟨k, hk⟩) j < exactReach top :=
        fun j hj => (hc.costsWithin.le_top _ j hi0 hj).trans_lt htop
      -- The exact row comes in, and the double one goes along.
      rcases b.insertRow hi hi0 hbelow with ⟨next, hnext, _⟩
      rcases exists_mirrored_insertRow hc b hi hi0 (card_take_rows hk) (inserted_sum_potentials ht)
        hmirrors hwhole hnext with ⟨here, hhere, h⟩
      refine ⟨here, next, ?_, ?_, h⟩
      · rw [List.take_add_one, rows_get hk, Option.toList_some, inserted_concat, hs]
        exact hhere
      · rw [List.take_add_one, rows_get hk, Option.toList_some, inserted_concat, ht]
        exact hnext

/-- Every row sees all columns when it comes in, so it links afresh. -/
theorem WholeCosts.linksAfresh (hc : WholeCosts cost exact top reach) {k : Nat} (hk : k < N)
    {before : State Float N}
    (h : inserted .double cost reach (State.start .double N) ((rows N).take k) = some before) :
    LinksAfresh .double cost reach before (Fin.succ ⟨k, hk⟩) := by
  have hi := succ_not_mem_take hk
  have hi0 := Fin.succ_ne_zero (⟨k, hk⟩ : Fin N)
  have htop := WholeCosts.top_lt (hc.top_nonneg hi0)
  rcases exists_mirrored hc k hk.le with ⟨s, t, hs, ht, hmirrors⟩
  rcases exists_inserted_whole hc.costsWithin htop k with ⟨t', ht', b, hwhole⟩
  rcases Option.some.inj (h.symm.trans hs) with rfl
  rcases Option.some.inj (ht.symm.trans ht') with rfl
  refine SeesAll.linksAfresh hi0 fun j => decide_eq_true ?_
  exact (hc.reduced_lt ⟨b, hi, hi0, hc.costsWithin, htop, .outset⟩ hmirrors hwhole
    (Fin.succ_ne_zero j)).1

end Search

end Roster
