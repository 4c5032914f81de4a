import Mathlib.Tactic.Linarith
import Roster.Proofs.Search.Freshness

/-!
# Searches That Round

Rounding alone does not keep a way back from ending. It has to make up a distance between the
costs and the cap, and if the cap lies far above the costs, then it cannot.

What has to be known of the arithmetic is little. Sums and differences of numbers that are not
too large come out near to where they should, and numbers that are not too large lie below the
cap. Which number is called the least does not matter at all. A search that goes to the wrong
column does not find a cheapest matching, but its potentials stay where they are held by cells
that are tight: a matched row lies about as far above zero as its column lies below it, and what
a column of the tree has lost together with the new row is a sum of costs along its way back, one
for each cell. The column where the search ends had no row and had lost nothing. So the new row
has gathered no more than such a sum, and no column has lost more than two of them.

Then every row sees every column below the cap when it comes in, and no link of an earlier row is
followed.

## Main definitions

* `Reading`: Which numbers are sound, and what they are worth.
* `Arithmetic.Rounds`: Arithmetic that comes out near to where it should.
* `Search.RoundedCosts`: Costs far below the cap, for how they are rounded.
* `Search.Near`: A state between two rows, at such costs.
* `Search.Tracked`: What every step of a search keeps.

## Theorems

* `Search.RoundedCosts.reduced_close`: Reduced costs come out near to where they should.
* `Search.Near.seesAll`: A new row sees every column.
* `Search.Tracked.scan`, `Search.Tracked.shift`: The two halves of a step.
* `Search.Near.insertRow`: What holds between two rows holds behind the next one.
* `Search.RoundedCosts.linksAfresh`: Every row links afresh.
-/

namespace Roster

/-- How numbers are read: which of them are sound, and what they are worth. -/
structure Reading (α : Type) where
  sound : α → Prop
  value : α → ℚ

/-- Sums and differences within a limit are sound, and no farther from what they should be worth
    than an error. -/
structure Arithmetic.Rounds {α : Type} (A : Arithmetic α) (ρ : Reading α) (limit error : ℚ) :
    Prop where
  sound_zero : ρ.sound A.zero
  value_zero : ρ.value A.zero = 0
  add : ∀ x y, ρ.sound x → ρ.sound y → |ρ.value x + ρ.value y| ≤ limit →
    ρ.sound (A.add x y) ∧ |ρ.value (A.add x y) - (ρ.value x + ρ.value y)| ≤ error
  sub : ∀ x y, ρ.sound x → ρ.sound y → |ρ.value x - ρ.value y| ≤ limit →
    ρ.sound (A.sub x y) ∧ |ρ.value (A.sub x y) - (ρ.value x - ρ.value y)| ≤ error

namespace Search

variable {α : Type} {N : Nat} {A : Arithmetic α} {ρ : Reading α} {cost : Slot N → Slot N → α}
  {reach : α} {top error : ℚ} {s : State α N} {R : Finset (Slot N)} {i : Slot N}
  {p q : Probe α N}

/-- Costs up to a greatest amount, of either sign. The cap lies above twenty times that for each
    slot, and within this range rounding loses little. -/
structure RoundedCosts (A : Arithmetic α) (ρ : Reading α) (cost : Slot N → Slot N → α) (reach : α)
    (top error : ℚ) : Prop where
  rounds : A.Rounds ρ (20 * (N + 1) * top) error
  sound : ∀ r j, r ≠ 0 → j ≠ 0 → ρ.sound (cost r j)
  within : ∀ r j, r ≠ 0 → j ≠ 0 → |ρ.value (cost r j)| ≤ top
  small : 4 * (N + 1) ^ 2 * error ≤ top
  below : ∀ x, ρ.sound x → |ρ.value x| ≤ 20 * (N + 1) * top → A.less x reach = true

namespace RoundedCosts

theorem top_nonneg (hc : RoundedCosts A ρ cost reach top error) {i : Slot N} (hi0 : i ≠ 0) :
    0 ≤ top :=
  (abs_nonneg _).trans (hc.within i i hi0 hi0)

theorem le_mul_top (hc : RoundedCosts A ρ cost reach top error) {i : Slot N} (hi0 : i ≠ 0) :
    0 ≤ N * top :=
  mul_nonneg (Nat.cast_nonneg N) (hc.top_nonneg hi0)

theorem error_nonneg (hc : RoundedCosts A ρ cost reach top error) {i : Slot N} (hi0 : i ≠ 0) :
    0 ≤ error := by
  have htop := hc.top_nonneg hi0
  refine (abs_nonneg _).trans (hc.rounds.add A.zero A.zero hc.rounds.sound_zero
    hc.rounds.sound_zero ?_).2
  rw [hc.rounds.value_zero, add_zero, abs_zero]
  positivity

/-- The errors of all steps for some rows and of one row more do not add up to a cost. -/
theorem budget (hc : RoundedCosts A ρ cost reach top error) {i : Slot N} (hi0 : i ≠ 0)
    {rows steps : ℕ} (hrows : rows + 1 ≤ N) (hsteps : steps ≤ N) :
    4 * (N + 1) * error * rows + 4 * steps * error + 5 * error ≤ top := by
  have herror := hc.error_nonneg hi0
  have hrows' : (rows : ℚ) + 1 ≤ N := by exact_mod_cast hrows
  have hsteps' : (steps : ℚ) ≤ N := by exact_mod_cast hsteps
  -- At most all rows but one are in, and each has had a step for every slot.
  have hall : (rows : ℚ) * ((N + 1) * error) ≤ (N - 1) * ((N + 1) * error) :=
    mul_le_mul_of_nonneg_right (by linarith) (by positivity)
  have hrow : (steps : ℚ) * error ≤ N * error := mul_le_mul_of_nonneg_right hsteps' herror
  have hside : 0 ≤ N * error := mul_nonneg (Nat.cast_nonneg N) herror
  have hsmall := hc.small
  linarith

theorem error_le (hc : RoundedCosts A ρ cost reach top error) {i : Slot N} (hi0 : i ≠ 0) :
    5 * error ≤ top := by
  have hside : 0 + 1 ≤ N := by
    have hpos : i.val ≠ 0 := fun h0 => hi0 (Fin.ext h0)
    have hlt := i.isLt
    omega
  have hbudget := hc.budget hi0 hside (Nat.zero_le N)
  simpa using hbudget

end RoundedCosts

/-- What is left of a cost less the potentials of its row and column. -/
def excess (ρ : Reading α) (cost : Slot N → Slot N → α) (s : State α N) (r j : Slot N) : ℚ :=
  ρ.value (cost r j) - ρ.value s.rowPotential[r] - ρ.value s.colPotential[j]

theorem RoundedCosts.reduced_close (hc : RoundedCosts A ρ cost reach top error) {r j : Slot N}
    (hr : r ≠ 0) (hj : j ≠ 0) (hrow : ρ.sound s.rowPotential[r])
    (hcol : ρ.sound s.colPotential[j])
    (hu : |ρ.value s.rowPotential[r]| ≤ 9 * ((N + 1) * top))
    (hv : |ρ.value s.colPotential[j]| ≤ 7 * ((N + 1) * top)) :
    ρ.sound (Probe.reduced A cost s r j) ∧
      |ρ.value (Probe.reduced A cost s r j) - excess ρ cost s r j| ≤ 2 * error := by
  have htop := hc.top_nonneg hr
  have hspan := hc.le_mul_top hr
  have herror := hc.error_le hr
  have hcost := hc.within r j hr hj
  rw [abs_le] at hu hv hcost
  rcases hc.rounds.sub _ _ (hc.sound r j hr hj) hrow (by rw [abs_le]; constructor <;> linarith)
    with ⟨hfirst, hclose⟩
  rw [abs_le] at hclose
  -- The first difference is off by an error already when the second is made.
  rcases hc.rounds.sub _ _ hfirst hcol (by rw [abs_le]; constructor <;> linarith)
    with ⟨hsecond, hclose'⟩
  refine ⟨hsecond, ?_⟩
  rw [abs_le] at hclose' ⊢
  rw [Probe.reduced, excess]
  constructor <;> linarith

/-- A state between two rows. Matched cells are nearly tight, and no column has lost much. -/
structure Near (ρ : Reading α) (cost : Slot N → Slot N → α) (top error : ℚ) (s : State α N)
    (R : Finset (Slot N)) : Prop extends Settled s R where
  soundRow : ∀ r : Slot N, r ≠ 0 → ρ.sound s.rowPotential[r]
  soundCol : ∀ j : Slot N, j ≠ 0 → ρ.sound s.colPotential[j]
  untouched : ∀ r : Slot N, r ≠ 0 → r ∉ R → ρ.value s.rowPotential[r] = 0
  vacant : ∀ j : Slot N, j ≠ 0 → s.rowOf[j] = 0 → ρ.value s.colPotential[j] = 0
  tight : ∀ j : Slot N, j ≠ 0 → s.rowOf[j] ≠ 0 →
    |excess ρ cost s s.rowOf[j] j| ≤ 4 * (N + 1) * error * R.card
  column : ∀ j : Slot N, j ≠ 0 → |ρ.value s.colPotential[j]| ≤ 7 * ((N + 1) * top)

theorem Near.start (hc : RoundedCosts A ρ cost reach top error) :
    Near ρ cost top error (State.start A N) ∅ := by
  have hrow : ∀ r : Slot N, (State.start A N).rowPotential[r] = A.zero := replicate_get A.zero
  have hcol : ∀ j : Slot N, (State.start A N).colPotential[j] = A.zero := replicate_get A.zero
  have hvacant : ∀ j : Slot N, (State.start A N).rowOf[j] = 0 := replicate_get 0
  exact {
    toSettled := Settled.start A
    soundRow := fun r _ => hrow r ▸ hc.rounds.sound_zero
    soundCol := fun j _ => hcol j ▸ hc.rounds.sound_zero
    untouched := fun r _ _ => hrow r ▸ hc.rounds.value_zero
    vacant := fun j _ _ => hcol j ▸ hc.rounds.value_zero
    tight := fun j _ hj => absurd (hvacant j) hj
    column := fun j hj => by
      have htop := hc.top_nonneg hj
      rw [hcol, hc.rounds.value_zero, abs_zero]
      positivity }

/-- The new row has gathered nothing yet, so what it sees is a cost and what a column has lost. -/
theorem Near.reduced_close (h : Near ρ cost top error s R)
    (hc : RoundedCosts A ρ cost reach top error) (hi : i ∉ R) (hi0 : i ≠ 0) {j : Slot N}
    (hj : j ≠ 0) : ρ.sound (Probe.reduced A cost s i j) ∧
      |ρ.value (Probe.reduced A cost s i j) - excess ρ cost s i j| ≤ 2 * error := by
  refine hc.reduced_close hi0 hj (h.soundRow i hi0) (h.soundCol j hj) ?_ (h.column j hj)
  have htop := hc.top_nonneg hi0
  -- The new row is worth nothing before its first step.
  rw [h.untouched i hi0 hi, abs_zero]
  positivity

theorem Near.seesAll (h : Near ρ cost top error s R) (hc : RoundedCosts A ρ cost reach top error)
    (hi : i ∉ R) (hi0 : i ≠ 0) : SeesAll A cost reach s i := by
  intro k
  have hj := Fin.succ_ne_zero k
  rcases h.reduced_close hc hi hi0 hj with ⟨hsound, hclose⟩
  refine hc.below _ hsound ?_
  have hcost := hc.within i k.succ hi0 hj
  have hcol := h.column k.succ hj
  have hspan := hc.le_mul_top hi0
  have herror := hc.error_le hi0
  have herror0 := hc.error_nonneg hi0
  rw [excess, h.untouched i hi0 hi, abs_le] at hclose
  rw [abs_le] at hcost hcol ⊢
  constructor <;> linarith

/-! ### What every step keeps -/

/-- What is left of the slack of a column, if it is not in the tree. -/
def Probe.rest (ρ : Reading α) (p : Probe α N) (j : Slot N) : ℚ :=
  if j ∈ p.visited then 0 else ρ.value p.slack[j]

theorem Probe.rest_of_mem {j : Slot N} (h : j ∈ p.visited) : p.rest ρ j = 0 := if_pos h

theorem Probe.rest_of_not_mem {j : Slot N} (h : j ∉ p.visited) :
    p.rest ρ j = ρ.value p.slack[j] := if_neg h

/-- A moment of the search for row `i` from `s`. Cells of matched rows are as tight as before but
    for a slip, links are as long as the slacks but for a slip, and no column is farther from what
    the new row has gathered than a level. -/
structure Tracked (ρ : Reading α) (cost : Slot N → Slot N → α) (s : State α N)
    (R : Finset (Slot N)) (i : Slot N) (loose slip level : ℚ) (p : Probe α N) : Prop where
  soundRow : ∀ r : Slot N, r ≠ 0 → ρ.sound p.rowPotential[r]
  soundCol : ∀ j : Slot N, j ≠ 0 → ρ.sound p.colPotential[j]
  soundSlack : ∀ j : Slot N, j ≠ 0 → j ∉ p.visited → ρ.sound p.slack[j]
  untouched : ∀ r : Slot N, r ≠ 0 → r ∉ R → r ≠ i → ρ.value p.rowPotential[r] = 0
  kept : ∀ j : Slot N, j ∉ p.visited → p.colPotential[j] = s.colPotential[j]
  tight : ∀ j : Slot N, j ≠ 0 → p.rowOf[j] ≠ 0 →
    |excess ρ cost p.toState p.rowOf[j] j| ≤ loose + slip
  inward : ∀ j : Slot N, j ≠ 0 → p.cameFrom[j] ∈ p.visited
  link : ∀ j : Slot N, j ≠ 0 →
    |excess ρ cost p.toState p.rowOf[p.cameFrom[j]] j - p.rest ρ j| ≤ slip
  level : ∀ j : Slot N, j ≠ 0 →
    |ρ.value p.colPotential[j] + ρ.value p.rowPotential[i] + p.rest ρ j| ≤ level

variable {loose slip level : ℚ}

theorem Tracked.mono (h : Tracked ρ cost s R i loose slip level p) {slip' level' : ℚ}
    (hslip : slip ≤ slip') (hlevel : level ≤ level') :
    Tracked ρ cost s R i loose slip' level' p :=
  { h with
    tight := fun j hj hrow => (h.tight j hj hrow).trans (by linarith)
    link := fun j hj => (h.link j hj).trans hslip
    level := fun j hj => (h.level j hj).trans hlevel }

theorem Probe.scan_cameFrom (j : Slot N) : (p.enter.scan A cost).cameFrom[j] =
    if p.enter.improves A cost j then p.column else p.cameFrom[j] := by
  simp [scan, enter]

theorem Probe.scan_slack (j : Slot N) : (p.enter.scan A cost).slack[j] =
    if p.enter.improves A cost j then Probe.reduced A cost p.toState p.rowOf[p.column] j
    else p.slack[j] := Probe.seen_get j

/-- The looks of the new row, before its first step is taken. -/
theorem Near.tracked (h : Near ρ cost top error s R) (hc : RoundedCosts A ρ cost reach top error)
    (hi : i ∉ R) (hi0 : i ≠ 0) :
    Tracked ρ cost s R i (4 * (N + 1) * error * R.card) (2 * error) (top + 2 * error)
      ((Probe.start s i reach).enter.scan A cost) := by
  have herror := hc.error_nonneg hi0
  have hsees := h.seesAll hc hi hi0
  -- Every column is seen below the cap, so no slack keeps the cap and no link an earlier row.
  have hseen : ∀ j : Slot N, j ≠ 0 → ((Probe.start s i reach).enter.scan A cost).slack[j] =
      Probe.reduced A cost s i j := by
    intro j hj
    have hrow : (Probe.start s i reach).rowOf[(Probe.start s i reach).column] = i :=
      (Probe.start_rowOf 0).trans (if_pos rfl)
    rw [Probe.scan_slack, if_pos (hsees.improves hj), hrow]
    exact rfl
  have hlink : ∀ j : Slot N, j ≠ 0 → ((Probe.start s i reach).enter.scan A cost).cameFrom[j] = 0 :=
    fun j hj => (Probe.scan_cameFrom j).trans (if_pos (hsees.improves hj))
  have hrest : ∀ j : Slot N, j ≠ 0 → ((Probe.start s i reach).enter.scan A cost).rest ρ j =
      ρ.value (Probe.reduced A cost s i j) := by
    intro j hj
    rw [Probe.rest_of_not_mem fun hmem => hj (List.mem_singleton.mp hmem), hseen j hj]
  have hrowOf : ∀ j : Slot N, ((Probe.start s i reach).enter.scan A cost).rowOf[j] =
      if j = 0 then i else s.rowOf[j] := @Probe.start_rowOf α N s i reach
  exact {
    soundRow := h.soundRow
    soundCol := h.soundCol
    soundSlack := fun j hj _ => hseen j hj ▸ (h.reduced_close hc hi hi0 hj).1
    untouched := fun r hr hrR _ => h.untouched r hr hrR
    kept := fun _ _ => rfl
    tight := fun j hj hrow => by
      rw [hrowOf, if_neg hj] at hrow ⊢
      exact (h.tight j hj hrow).trans (by linarith)
    inward := fun j hj => hlink j hj ▸ List.mem_singleton.mpr rfl
    link := fun j hj => by
      rw [hlink j hj, hrowOf, if_pos rfl, hrest j hj, abs_sub_comm]
      exact (h.reduced_close hc hi hi0 hj).2
    level := fun j hj => by
      have hclose := (h.reduced_close hc hi hi0 hj).2
      have hcost := hc.within i j hi0 hj
      have hu := h.untouched i hi0 hi
      rw [excess, hu, abs_le] at hclose
      rw [hrest j hj]
      change |ρ.value s.colPotential[j] + ρ.value s.rowPotential[i] + _| ≤ _
      rw [hu]
      rw [abs_le] at hcost ⊢
      constructor <;> linarith }

/-- A look improves a column or leaves it as it was. The reached column has next to nothing left,
    and nothing once it is in the tree. -/
theorem Probe.scan_cases (hnear : |ρ.value p.slack[p.column]| ≤ error)
    (j : Slot N) :
    (j ∉ p.visited ∧ (p.enter.scan A cost).cameFrom[j] = p.column ∧
      (p.enter.scan A cost).rest ρ j =
        ρ.value (Probe.reduced A cost p.toState p.rowOf[p.column] j)) ∨
    ((p.enter.scan A cost).cameFrom[j] = p.cameFrom[j] ∧
      |(p.enter.scan A cost).rest ρ j - p.rest ρ j| ≤ error) := by
  have hvisited : (p.enter.scan A cost).visited = p.column :: p.visited := rfl
  rw [scan_cameFrom]
  -- A column that is not improved keeps its slack, but the reached one loses it in the tree.
  by_cases himp : p.enter.improves A cost j = true
  · have hout := (improves_iff.mp himp).2.1
    refine Or.inl ⟨fun hmem => hout (List.mem_cons_of_mem _ hmem), if_pos himp, ?_⟩
    rw [rest_of_not_mem hout, scan_slack, if_pos himp]
  refine Or.inr ⟨if_neg himp, ?_⟩
  have herror : 0 ≤ error := (abs_nonneg _).trans hnear
  by_cases hmem : j ∈ p.visited
  · rw [rest_of_mem hmem, rest_of_mem (hvisited ▸ List.mem_cons_of_mem _ hmem), sub_self, abs_zero]
    exact herror
  rw [rest_of_not_mem hmem]
  by_cases hj : j = p.column
  · rw [rest_of_mem (hvisited ▸ hj ▸ List.mem_cons_self), hj, zero_sub, abs_neg]
    exact hnear
  · have hout : j ∉ (p.enter.scan A cost).visited := by
      rw [hvisited, List.mem_cons, not_or]
      exact ⟨hj, hmem⟩
    rw [rest_of_not_mem hout, scan_slack, if_neg himp, sub_self, abs_zero]
    exact herror

section Step

variable (h : Tracked ρ cost s R i loose slip level p) (hc : RoundedCosts A ρ cost reach top error)
  (hs : Near ρ cost top error s R) (ht : Tree s i p) (hi0 : i ≠ 0)
include h hc hs ht hi0

/-- The row of the reached column lies about as far above zero as its column has lost. -/
theorem Tracked.reduced_close (hcol : p.column ≠ 0) (hrow : p.rowOf[p.column] ≠ 0)
    (hbudget : loose + slip + 5 * error ≤ top) {j : Slot N} (hj : j ≠ 0) (hout : j ∉ p.visited) :
    ρ.sound (Probe.reduced A cost p.toState p.rowOf[p.column] j) ∧
      |ρ.value (Probe.reduced A cost p.toState p.rowOf[p.column] j) -
        excess ρ cost p.toState p.rowOf[p.column] j| ≤ 2 * error := by
  have hspan := hc.le_mul_top hi0
  have herror := hc.error_nonneg hi0
  have hfresh : p.column ∉ p.visited := (List.nodup_cons.mp ht.nodup).1
  refine hc.reduced_close hrow hj (h.soundRow _ hrow) (h.soundCol j hj) ?_ ?_
  -- The cell of the reached column is nearly tight, which is what holds its row down.
  · have htight := h.tight _ hcol hrow
    have hcost := hc.within _ p.column hrow hcol
    have hlost := hs.column p.column hcol
    rw [excess, h.kept _ hfresh, abs_le] at htight
    rw [abs_le] at hcost hlost ⊢
    constructor <;> linarith
  · rw [h.kept j hout]
    exact hs.column j hj

/-- A step looks at all columns outside the tree from the row of the reached column. -/
theorem Tracked.scan (hcol : p.column ≠ 0) (hrow : p.rowOf[p.column] ≠ 0)
    (hnear : |ρ.value p.slack[p.column]| ≤ error) (hslip : 0 ≤ slip)
    (hbudget : loose + slip + 5 * error ≤ top) :
    Tracked ρ cost s R i loose (slip + 2 * error) (level + 3 * top - 2 * error)
      (p.enter.scan A cost) := by
  have htop := hc.top_nonneg hi0
  have herror := hc.error_nonneg hi0
  have herror' := hc.error_le hi0
  have hfresh : p.column ∉ p.visited := (List.nodup_cons.mp ht.nodup).1
  have hvisited : (p.enter.scan A cost).visited = p.column :: p.visited := rfl
  exact {
    soundRow := h.soundRow
    soundCol := h.soundCol
    soundSlack := fun j hj hout => by
      have hout' : j ∉ p.visited := fun hmem => hout (List.mem_cons_of_mem _ hmem)
      rw [Probe.scan_slack]
      by_cases himp : p.enter.improves A cost j = true
      · rw [if_pos himp]
        exact (h.reduced_close hc hs ht hi0 hcol hrow hbudget hj hout').1
      · rw [if_neg himp]
        exact h.soundSlack j hj hout'
    untouched := h.untouched
    kept := fun j hout => h.kept j fun hmem => hout (List.mem_cons_of_mem _ hmem)
    tight := fun j hj hr => (h.tight j hj hr).trans (by linarith)
    inward := fun j hj => by
      rw [Probe.scan_cameFrom, hvisited]
      by_cases himp : p.enter.improves A cost j = true
      · rw [if_pos himp]
        exact List.mem_cons_self
      · rw [if_neg himp]
        exact List.mem_cons_of_mem _ (h.inward j hj)
    link := fun j hj => by
      rcases Probe.scan_cases hnear j with ⟨hout, hfrom, hrest⟩ | ⟨hfrom, hrest⟩
      · rw [hfrom, hrest, abs_sub_comm]
        exact (h.reduced_close hc hs ht hi0 hcol hrow hbudget hj hout).2.trans (by linarith)
      · have hold := h.link j hj
        rw [hfrom]
        change |excess ρ cost p.toState p.rowOf[p.cameFrom[j]] j - _| ≤ _
        rw [abs_le] at hold hrest ⊢
        constructor <;> linarith
    level := fun j hj => by
      change |ρ.value p.colPotential[j] + ρ.value p.rowPotential[i] + _| ≤ _
      rcases Probe.scan_cases hnear j with ⟨hout, _, hrest⟩ | ⟨_, hrest⟩
      · -- From the reached column the way goes over a tight cell to its row, and on.
        have hclose := (h.reduced_close hc hs ht hi0 hcol hrow hbudget hj hout).2
        have htight := h.tight _ hcol hrow
        have hback := h.level _ hcol
        have hcost := hc.within _ j hrow hj
        have hcost' := hc.within _ p.column hrow hcol
        rw [Probe.rest_of_not_mem hfresh] at hback
        rw [excess] at hclose htight
        rw [hrest]
        rw [abs_le] at hclose htight hback hcost hcost' hnear ⊢
        constructor <;> linarith
      · have hold := h.level j hj
        rw [abs_le] at hold hrest ⊢
        constructor <;> linarith }

end Step

/-- What the second half of a step does to what the first half has left: it goes to a column
    outside the tree at the price of its slack. -/
structure Probe.Shifts (A : Arithmetic α) (p q : Probe α N) : Prop where
  visited : q.visited = p.visited
  column_ne_zero : q.column ≠ 0
  column_fresh : q.column ∉ p.visited
  rowOf : q.rowOf = p.rowOf
  cameFrom : ∀ j : Slot N, q.cameFrom[j] = p.cameFrom[j]
  rowPotential : ∀ r : Slot N, q.rowPotential[r] =
    if r ∈ p.visited.map (fun j => p.rowOf[j]) then A.add p.rowPotential[r] p.slack[q.column]
    else p.rowPotential[r]
  colPotential : ∀ j : Slot N, q.colPotential[j] =
    if j ∈ p.visited then A.sub p.colPotential[j] p.slack[q.column] else p.colPotential[j]
  slack : ∀ j : Slot N, q.slack[j] =
    if j ∈ p.visited then p.slack[j] else A.sub p.slack[j] p.slack[q.column]

theorem Probe.Reaches.shifts (hq : Reaches A cost p q) : Shifts A (p.enter.scan A cost) q where
  visited := hq.visited
  column_ne_zero := hq.column_ne_zero
  column_fresh := hq.column_fresh
  rowOf := hq.rowOf
  cameFrom := fun j => (hq.cameFrom j).trans (scan_cameFrom j).symm
  rowPotential := fun r => by
    have h := hq.rowPotential r
    rw [hq.visited] at h
    exact h
  colPotential := fun j => by
    have h := hq.colPotential j
    rw [hq.visited] at h
    exact h
  slack := fun j => by
    have h := hq.slack j
    rw [hq.visited] at h
    exact h

section Shift

variable (h : Tracked ρ cost s R i loose slip level p)
  (hc : RoundedCosts A ρ cost reach top error) (hs : Near ρ cost top error s R)
  (hq : Probe.Shifts A p q) (hlevel : level ≤ 3 * ((N + 1) * top))
include h hs hq hlevel

/-- The new row comes to what a column outside the tree has lost and the costs of a way back. -/
theorem Tracked.newRow_le :
    |ρ.value p.rowPotential[i] + ρ.value p.slack[q.column]| ≤ 10 * ((N + 1) * top) := by
  have hback := h.level _ hq.column_ne_zero
  have hlost := hs.column _ hq.column_ne_zero
  rw [h.kept _ hq.column_fresh, Probe.rest_of_not_mem hq.column_fresh] at hback
  rw [abs_le] at hback hlost ⊢
  constructor <;> linarith

variable (hi0 : i ≠ 0)
include hc hi0

theorem Tracked.column_close {j : Slot N} (hj : j ≠ 0) (hmem : j ∈ p.visited) :
    ρ.sound q.colPotential[j] ∧ |ρ.value q.colPotential[j] -
      (ρ.value p.colPotential[j] - ρ.value p.slack[q.column])| ≤ error := by
  have hspan := hc.le_mul_top hi0
  have htop := hc.top_nonneg hi0
  have hnew := h.newRow_le hs hq hlevel
  have hback := h.level j hj
  rw [Probe.rest_of_mem hmem] at hback
  rw [hq.colPotential, if_pos hmem]
  -- Neither the column nor the price need be small, but what the column comes to is.
  refine hc.rounds.sub _ _ (h.soundCol j hj) (h.soundSlack _ hq.column_ne_zero hq.column_fresh) ?_
  rw [abs_le] at hback hnew ⊢
  constructor <;> linarith

theorem Tracked.slack_close {j : Slot N} (hj : j ≠ 0) (hout : j ∉ p.visited) :
    ρ.sound q.slack[j] ∧ |ρ.value q.slack[j] -
      (ρ.value p.slack[j] - ρ.value p.slack[q.column])| ≤ error := by
  have hspan := hc.le_mul_top hi0
  have htop := hc.top_nonneg hi0
  have hnew := h.newRow_le hs hq hlevel
  have hback := h.level j hj
  have hlost := hs.column j hj
  rw [h.kept j hout, Probe.rest_of_not_mem hout] at hback
  rw [hq.slack, if_neg hout]
  refine hc.rounds.sub _ _ (h.soundSlack j hj hout)
    (h.soundSlack _ hq.column_ne_zero hq.column_fresh) ?_
  rw [abs_le] at hback hnew hlost ⊢
  constructor <;> linarith

/-- In the tree a column falls, and outside of it the slack does. -/
theorem Tracked.fall_close {j : Slot N} (hj : j ≠ 0) :
    |ρ.value q.colPotential[j] + q.rest ρ j -
      (ρ.value p.colPotential[j] + p.rest ρ j - ρ.value p.slack[q.column])| ≤ error := by
  by_cases hmem : j ∈ p.visited
  · have hcol := (h.column_close hc hs hq hlevel hi0 hj hmem).2
    rw [Probe.rest_of_mem hmem, Probe.rest_of_mem (hq.visited ▸ hmem), add_zero, add_zero]
    exact hcol
  · have hslack := (h.slack_close hc hs hq hlevel hi0 hj hmem).2
    rw [Probe.rest_of_not_mem hmem, Probe.rest_of_not_mem (hq.visited ▸ hmem), hq.colPotential,
      if_neg hmem]
    rw [abs_le] at hslack ⊢
    constructor <;> linarith

variable (htree : Tree s i q) (hbudget : loose + slip + 5 * error ≤ top)
include htree hbudget

/-- A row of the tree other than the new one lies about as far above zero as its column has
    lost. -/
theorem Tracked.row_close {x : Slot N} (hx : x ∈ p.visited) :
    ρ.sound q.rowPotential[p.rowOf[x]] ∧ |ρ.value q.rowPotential[p.rowOf[x]] -
      (ρ.value p.rowPotential[p.rowOf[x]] + ρ.value p.slack[q.column])| ≤ error := by
  have hspan := hc.le_mul_top hi0
  have htop := hc.top_nonneg hi0
  have herror := hc.error_nonneg hi0
  have hnew := h.newRow_le hs hq hlevel
  have hrow : p.rowOf[x] ≠ 0 := hq.rowOf ▸ htree.occupied x (hq.visited ▸ hx)
  rw [hq.rowPotential, if_pos (List.mem_map_of_mem hx)]
  refine hc.rounds.add _ _ (h.soundRow _ hrow)
    (h.soundSlack _ hq.column_ne_zero hq.column_fresh) ?_
  -- The new row stands in the virtual column, and every other row in a cell that is nearly tight.
  by_cases hx0 : x = 0
  · have hi : p.rowOf[x] = i := by rw [hx0, ← hq.rowOf, htree.rowOf_zero]
    rw [hi]
    exact hnew.trans (by linarith)
  · have htight := h.tight x hx0 hrow
    have hback := h.level x hx0
    have hcost := hc.within _ x hrow hx0
    rw [Probe.rest_of_mem hx] at hback
    rw [excess] at htight
    rw [abs_le] at htight hback hcost hnew ⊢
    constructor <;> linarith

theorem Tracked.newRow_close : ρ.sound q.rowPotential[i] ∧ |ρ.value q.rowPotential[i] -
    (ρ.value p.rowPotential[i] + ρ.value p.slack[q.column])| ≤ error := by
  have hroot : 0 ∈ p.visited := by
    rcases htree.root with ⟨_, h0⟩ | ⟨hmem, _⟩
    · exact absurd h0 hq.column_ne_zero
    · exact hq.visited ▸ hmem
  have hi : p.rowOf[(0 : Slot N)] = i := hq.rowOf ▸ htree.rowOf_zero
  have hclose := h.row_close hc hs hq hlevel hi0 htree hbudget hroot
  rwa [hi] at hclose

/-- A step raises the rows of the tree by as much as it lowers its columns, up to an error on each
    side. -/
theorem Tracked.shift (hi : i ∉ R) :
    Tracked ρ cost s R i loose (slip + 2 * error) (level + 2 * error) q := by
  have herror := hc.error_nonneg hi0
  -- What is not in the tree is left alone, so each fact splits at the tree.
  have hkeep : ∀ r : Slot N, r ∉ p.visited.map (fun j => p.rowOf[j]) →
      q.rowPotential[r] = p.rowPotential[r] := fun r hr => (hq.rowPotential r).trans (if_neg hr)
  have hkeep' : ∀ j : Slot N, j ∉ p.visited → q.colPotential[j] = p.colPotential[j] :=
    fun j hj => (hq.colPotential j).trans (if_neg hj)
  exact {
    soundRow := fun r hr => by
      by_cases hmem : r ∈ p.visited.map (fun j => p.rowOf[j])
      · rcases List.mem_map.mp hmem with ⟨x, hx, rfl⟩
        exact (h.row_close hc hs hq hlevel hi0 htree hbudget hx).1
      · exact hkeep r hmem ▸ h.soundRow r hr
    soundCol := fun j hj => by
      by_cases hmem : j ∈ p.visited
      · exact (h.column_close hc hs hq hlevel hi0 hj hmem).1
      · exact hkeep' j hmem ▸ h.soundCol j hj
    soundSlack := fun j hj hout =>
      (h.slack_close hc hs hq hlevel hi0 hj (hq.visited ▸ hout)).1
    untouched := fun r hr hrR hri => by
      rw [hkeep r, h.untouched r hr hrR hri]
      intro hmem
      rcases List.mem_map.mp hmem with ⟨x, hx, rfl⟩
      rcases htree.row_mem hs.placed (hq.rowOf ▸ hr) with hmatched | hnew
      · exact hrR (hq.rowOf ▸ hmatched)
      · exact hri (hq.rowOf ▸ hnew)
    kept := fun j hout => (hkeep' j (hq.visited ▸ hout)).trans (h.kept j (hq.visited ▸ hout))
    tight := fun j hj hrow => by
      rw [hq.rowOf] at hrow ⊢
      have htight := h.tight j hj hrow
      -- A row is in the tree with its column, so the two move together or stay together.
      by_cases hmem : j ∈ p.visited
      · have hcol := (h.column_close hc hs hq hlevel hi0 hj hmem).2
        have hraise := (h.row_close hc hs hq hlevel hi0 htree hbudget hmem).2
        rw [excess] at htight ⊢
        rw [abs_le] at htight hcol hraise ⊢
        constructor <;> linarith
      · have hout : p.rowOf[j] ∉ p.visited.map (fun j => p.rowOf[j]) := by
          have hiff := htree.row_mem_map_iff hs.placed hi p.visited rfl (hq.rowOf ▸ hrow)
          rw [hq.rowOf] at hiff
          exact fun hmap => hmem (hiff.mp hmap)
        rw [excess] at htight
        rw [excess, hkeep _ hout, hkeep' j hmem]
        exact htight.trans (by linarith)
    inward := fun j hj => hq.cameFrom j ▸ hq.visited ▸ h.inward j hj
    link := fun j hj => by
      have hlink := h.link j hj
      have hfall := h.fall_close hc hs hq hlevel hi0 hj
      have hraise := (h.row_close hc hs hq hlevel hi0 htree hbudget (h.inward j hj)).2
      rw [hq.rowOf, hq.cameFrom, excess]
      rw [excess] at hlink
      rw [abs_le] at hlink hfall hraise ⊢
      constructor <;> linarith
    level := fun j hj => by
      have hback := h.level j hj
      have hfall := h.fall_close hc hs hq hlevel hi0 hj
      have hraise := (h.newRow_close hc hs hq hlevel hi0 htree hbudget).2
      rw [abs_le] at hback hfall hraise ⊢
      constructor <;> linarith }

end Shift

/-! ### A row and the next -/

/-- A moment of the search for row `i` from `s` behind its first step. What the steps have lost by
    rounding, and how long the ways back have become, goes by their number. -/
structure Pursued (ρ : Reading α) (cost : Slot N → Slot N → α) (top error : ℚ) (s : State α N)
    (R : Finset (Slot N)) (i : Slot N) (p : Probe α N) : Prop where
  tree : Tree s i p
  started : p.column ≠ 0
  nearest : |ρ.value p.slack[p.column]| ≤ error
  tracked : Tracked ρ cost s R i (4 * (N + 1) * error * R.card) (4 * p.visited.length * error)
    (3 * p.visited.length * top) p

theorem Pursued.of_shifts (h : Tracked ρ cost s R i (4 * (N + 1) * error * R.card) slip level p)
    (hc : RoundedCosts A ρ cost reach top error) (hs : Near ρ cost top error s R) (hi : i ∉ R)
    (hi0 : i ≠ 0) (hq : Probe.Shifts A p q) (htree : Tree s i q)
    (hslip : slip + 2 * error ≤ 4 * q.visited.length * error)
    (hlevel : level + 2 * error ≤ 3 * q.visited.length * top) :
    Pursued ρ cost top error s R i q := by
  have htop := hc.top_nonneg hi0
  have herror := hc.error_nonneg hi0
  -- All rows and all steps so far have not lost a cost by rounding.
  have hbudget := hc.budget hi0 (hs.placed.card_lt hi hi0) htree.length_visited_le
  have hlength : (q.visited.length : ℚ) * top ≤ N * top :=
    mul_le_mul_of_nonneg_right (Nat.cast_le.mpr htree.length_visited_le) htop
  refine ⟨htree, hq.column_ne_zero, ?_, ?_⟩
  · -- The slack of the column that is gone to is taken from itself.
    have hsound := h.soundSlack _ hq.column_ne_zero hq.column_fresh
    have hspan := hc.le_mul_top hi0
    have hclose := (hc.rounds.sub _ _ hsound hsound (by rw [sub_self, abs_zero]; positivity)).2
    rw [hq.slack, if_neg hq.column_fresh]
    rwa [sub_self, sub_zero] at hclose
  · exact (h.shift hc hs hq (by linarith) hi0 htree (by linarith) hi).mono hslip hlevel

theorem Near.pursued (h : Near ρ cost top error s R) (hc : RoundedCosts A ρ cost reach top error)
    (hi : i ∉ R) (hi0 : i ≠ 0) :
    Pursued ρ cost top error s R i ((Probe.start s i reach).step A cost) := by
  rcases h.placed.exists_vacant hi hi0 with ⟨y, hy, hvacant⟩
  have htree : Tree s i (Probe.start s i reach) := Tree.start hi0 h.linked
  have hopen : (Probe.start s i reach).done = false := Probe.start_not_done hi0
  have hq : Probe.Reaches A cost (Probe.start s i reach) ((Probe.start s i reach).step A cost) :=
    htree.reaches hopen hy hvacant
  -- Behind the first step the tree is the virtual column.
  have hone : ((((Probe.start s i reach).step A cost).visited.length : ℕ) : ℚ) = 1 := by
    rw [hq.visited]
    exact Nat.cast_one
  have herror := hc.error_le hi0
  have htop := hc.top_nonneg hi0
  refine .of_shifts (h.tracked hc hi hi0) hc h hi hi0 hq.shifts (htree.of_reaches hopen hq) ?_ ?_
  · rw [hone]
    linarith
  · rw [hone]
    linarith

theorem Pursued.step (h : Pursued ρ cost top error s R i p)
    (hc : RoundedCosts A ρ cost reach top error) (hs : Near ρ cost top error s R) (hi : i ∉ R)
    (hi0 : i ≠ 0) (hdone : p.done = false) :
    Pursued ρ cost top error s R i (p.step A cost) := by
  rcases hs.placed.exists_vacant hi hi0 with ⟨y, hy, hvacant⟩
  have hq : Probe.Reaches A cost p (p.step A cost) := h.tree.reaches hdone hy hvacant
  -- The tree has grown by one column, and the two halves of the step use up what that allows.
  have hlength : (((p.step A cost).visited.length : ℕ) : ℚ) = p.visited.length + 1 := by
    rw [hq.visited, List.length_cons, Nat.cast_add, Nat.cast_one]
  have herror := hc.error_nonneg hi0
  have hrow : p.rowOf[p.column] ≠ 0 := fun h0 => by
    rw [Probe.done_iff.mpr h0] at hdone
    exact absurd hdone Bool.noConfusion
  have hscan := h.tracked.scan hc hs h.tree hi0 h.started hrow h.nearest (by positivity)
    (hc.budget hi0 (hs.placed.card_lt hi hi0) h.tree.length_visited_le)
  refine .of_shifts hscan hc hs hi hi0 hq.shifts (h.tree.of_reaches hdone hq) ?_ ?_
  · rw [hlength]
    linarith
  · rw [hlength]
    linarith

section Flip

variable (h : Pursued ρ cost top error s R i p) (hc : RoundedCosts A ρ cost reach top error)
  (hs : Near ρ cost top error s R) (hi0 : i ≠ 0)
include h hc hs hi0

/-- Where the search ends, no column has lost more than two ways back. -/
theorem Pursued.column_le (hdone : p.done = true) {j : Slot N} (hj : j ≠ 0) :
    |ρ.value p.colPotential[j]| ≤ 7 * ((N + 1) * top) := by
  by_cases hmem : j ∈ p.visited
  · have hfresh : p.column ∉ p.visited := (List.nodup_cons.mp h.tree.nodup).1
    have hrow : s.rowOf[p.column] = 0 :=
      (h.tree.rowOf_of_ne h.started).symm.trans (Probe.done_iff.mp hdone)
    -- The new row has gathered what the way back to the last column costs, for that column had
    -- lost nothing. From there another way back leads to `j`.
    have hback := h.tracked.level j hj
    have hend := h.tracked.level _ h.started
    have hnear := h.nearest
    rw [Probe.rest_of_mem hmem] at hback
    rw [Probe.rest_of_not_mem hfresh, h.tracked.kept _ hfresh, hs.vacant _ h.started hrow] at hend
    have htop := hc.top_nonneg hi0
    have herror := hc.error_le hi0
    have hspan := hc.le_mul_top hi0
    have hlength : (p.visited.length : ℚ) * top ≤ N * top :=
      mul_le_mul_of_nonneg_right (Nat.cast_le.mpr h.tree.length_visited_le) htop
    rw [abs_le] at hback hend hnear ⊢
    constructor <;> linarith
  · rw [h.tracked.kept j hmem]
    exact hs.column j hj

/-- The rows are handed back along tight cells. -/
theorem Pursued.near (hi : i ∉ R) (hdone : p.done = true) {columns : List (Slot N)}
    (hcolumns : trail p.cameFrom N p.column = some columns)
    (hsub : columns ⊆ p.column :: p.visited)
    (hsettled : Settled { p.toState with rowOf := flip p.cameFrom columns p.rowOf } (insert i R)) :
    Near ρ cost top error { p.toState with rowOf := flip p.cameFrom columns p.rowOf }
      (insert i R) := by
  have herror := hc.error_nonneg hi0
  have hcard : ((insert i R).card : ℚ) = R.card + 1 := by
    rw [Finset.card_insert_of_notMem hi, Nat.cast_add, Nat.cast_one]
  have hlength : (p.visited.length : ℚ) * error ≤ N * error :=
    mul_le_mul_of_nonneg_right (Nat.cast_le.mpr h.tree.length_visited_le) herror
  have hloose : 0 ≤ 4 * (N + 1) * error * R.card := by positivity
  exact {
    toSettled := hsettled
    soundRow := h.tracked.soundRow
    soundCol := h.tracked.soundCol
    untouched := fun r hr hout =>
      h.tracked.untouched r hr (fun hmem => hout (Finset.mem_insert_of_mem hmem))
        fun heq => hout (heq ▸ Finset.mem_insert_self i R)
    vacant := fun j hj hrow => by
      have hget := flip_get hcolumns p.rowOf j
      -- A column on the way back is handed a row, so one without a row is off the way.
      by_cases hmem : j ∈ columns
      · exact absurd ((hget.1 hmem).symm.trans hrow) (h.tree.linked j _ rfl)
      · have hvacant : p.rowOf[j] = 0 := (hget.2 hmem).symm.trans hrow
        have hout : j ∉ p.visited := fun hin => h.tree.occupied j hin hvacant
        change ρ.value p.colPotential[j] = 0
        rw [h.tracked.kept j hout]
        exact hs.vacant j hj ((h.tree.rowOf_of_ne hj).symm.trans hvacant)
    tight := fun j hj hrow => by
      have hget := flip_get hcolumns p.rowOf j
      change |excess ρ cost p.toState (flip p.cameFrom columns p.rowOf)[j] j| ≤ _
      rw [hcard]
      -- On the way back a column gets the row that its link comes from, whose cell the link makes
      -- tight. Off the way it keeps its row.
      by_cases hmem : j ∈ columns
      · rw [hget.1 hmem]
        have hlink := h.tracked.link j hj
        have hrest : |p.rest ρ j| ≤ error := by
          rcases List.mem_cons.mp (hsub hmem) with rfl | hin
          · rw [Probe.rest_of_not_mem (List.nodup_cons.mp h.tree.nodup).1]
            exact h.nearest
          · rw [Probe.rest_of_mem hin, abs_zero]
            exact herror
        rw [abs_le] at hlink hrest ⊢
        constructor <;> linarith
      · change (flip p.cameFrom columns p.rowOf)[j] ≠ 0 at hrow
        rw [hget.2 hmem] at hrow ⊢
        exact (h.tracked.tight j hj hrow).trans (by linarith)
    column := fun j hj => h.column_le hc hs hi0 hdone hj }

end Flip

/-- A row comes in, and no column has lost more than others had before. -/
theorem Near.insertRow (h : Near ρ cost top error s R)
    (hc : RoundedCosts A ρ cost reach top error) (hi : i ∉ R) (hi0 : i ≠ 0) {next : State α N}
    (hnext : (Search.insertRow A cost reach s i).state = some next) :
    Near ρ cost top error next (insert i R) := by
  have hp : Pursued ρ cost top error s R i (Search.insertRow A cost reach s i).probe :=
    Probe.insertRow_keeps A cost reach (h.pursued hc hi hi0) fun p hp hdone =>
      hp.step hc h hi hi0 hdone
  have hdone := (Tree.insertRow A cost reach h.toSettled hi hi0).2
  have hsettled := h.toSettled.insertRow hi hi0 hnext
  -- The way back that was found and the one that was followed are the same.
  rcases ((h.seesAll hc hi hi0).linksAfresh hi0).exists_trail h.toSettled hi hi0
    with ⟨columns, hcolumns, hsub⟩
  rcases insertRow_state hnext with ⟨columns', hcolumns', rfl⟩
  rcases trail_unique hcolumns hcolumns' with rfl
  exact hp.near hc h hi0 hi hdone hcolumns hsub hsettled

/-- Every row sees all columns when it comes in, so it links afresh. -/
theorem RoundedCosts.linksAfresh (hc : RoundedCosts A ρ cost reach top error) {k : Nat}
    (hk : k < N) {before : State α N}
    (h : inserted A cost reach (State.start A N) ((rows N).take k) = some before) :
    LinksAfresh A cost reach before (Fin.succ ⟨k, hk⟩) := by
  have hnear := inserted_keeps (fun _ _ _ _ hs hi hi0 hnext => Near.insertRow hs hc hi hi0 hnext)
    _ _ ∅ _ (Near.start hc) (fresh_take N k) h
  rw [Finset.empty_union] at hnear
  exact (hnear.seesAll hc (succ_not_mem_take hk) (Fin.succ_ne_zero _)).linksAfresh
    (Fin.succ_ne_zero _)

end Search

end Roster
