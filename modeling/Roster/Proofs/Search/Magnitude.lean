import Mathlib.Algebra.Ring.Subring.Basic
import Roster.Proofs.Number.Whole
import Roster.Proofs.Search.Freshness
import Roster.Proofs.Search.Lockstep
import Roster.Proofs.Search.Prefix

/-!
# How Large the Numbers of a Search Get

Costs between zero and a greatest one, in exact arithmetic. Every step adds to some potentials,
so it seems that they could grow with the number of rows. They do not: there is always a column
without a row, whose potential is zero, and in it no row can have gathered more than its cost.
What a row has gathered bounds in turn what the column that it stands in has lost, since their
cell is tight. This is so at every moment of a search, and not only between two of them.

The virtual column alone has no row to keep it small. It has lost what the matching costs and
what the new row has gathered so far, hence up to the greatest cost for each row.

Sums and differences of whole numbers are whole, so with whole costs all these numbers are whole
ones between the same bounds.

## Main definitions

* `CostsWithin`: Costs between zero and a greatest one.
* `Measured`: A moment of a search at such costs.
* `wholeNumbers`, `WholePotentials`: Whole numbers among the rational ones.
* `WholeIn`: A whole number between two others.
* `Works`: The numbers that a search works with at a moment, each with its bounds.

## Theorems

* `Measured.induct`: What every step keeps holds at every moment.
* `Measured.feasible`, `Measured.reduced_le`: Reduced costs of matched rows and the new one.
* `Measured.price_nonneg`, `Measured.price_le`: What a step costs.
* `Measured.rowPotential_nonneg`, `Measured.rowPotential_le`: What rows have gathered.
* `Measured.colPotential_ge`: What columns have lost.
* `Measured.virtual_add`, `Measured.virtual_ge`: What the virtual column has lost.
* `Measured.slack_eq`: An improved slack is a reduced cost.
* `Measured.wholePotentials`: A step keeps potentials whole.
* `stages_whole`: With whole costs all numbers are whole and within their bounds.
-/

namespace Roster

namespace Search

/-- Costs between zero and a greatest one. -/
structure CostsWithin {α : Type} {N : Nat} [Zero α] [LE α] (cost : Slot N → Slot N → α) (top : α) :
    Prop where
  nonneg : ∀ r j, r ≠ 0 → j ≠ 0 → 0 ≤ cost r j
  le_top : ∀ r j, r ≠ 0 → j ≠ 0 → cost r j ≤ top

variable {α : Type} {N : Nat} [CommRing α] [LinearOrder α] {cost : Slot N → Slot N → α}
  {reach top : α} {s : State α N} {R : Finset (Slot N)} {i : Slot N} {p : Probe α N}
  {improved : Finset (Slot N)}

/-- A moment of the search for row `i` from a balanced state, at costs up to `top`, which the cap
    is above. -/
structure Measured (cost : Slot N → Slot N → α) (reach top : α) (s : State α N)
    (R : Finset (Slot N)) (i : Slot N) (p : Probe α N) (improved : Finset (Slot N)) : Prop where
  balanced : Balanced cost s R
  fresh : i ∉ R
  row_ne_zero : i ≠ 0
  costs : CostsWithin cost top
  below : top < reach
  moment : Probe.Moment .ofOrder cost (Probe.start s i reach) p improved

namespace Measured

theorem next (h : Measured cost reach top s R i p improved) (hdone : p.done = false) :
    Measured cost reach top s R i (p.step .ofOrder cost)
      (improved ∪ p.improvedNow .ofOrder cost) :=
  { h with moment := h.moment.next hdone }

theorem tree (h : Measured cost reach top s R i p improved) : Tree s i p :=
  h.moment.tree h.balanced.toSettled h.fresh h.row_ne_zero

theorem reaches (h : Measured cost reach top s R i p improved) (hdone : p.done = false) :
    Probe.Reaches .ofOrder cost p (p.step .ofOrder cost) :=
  h.moment.reaches h.balanced.toSettled h.fresh h.row_ne_zero hdone

theorem cost_lt (h : Measured cost reach top s R i p improved) {j : Slot N} (hj : j ≠ 0) :
    cost i j < reach :=
  (h.costs.le_top i j h.row_ne_zero hj).trans_lt h.below

/-- What holds at first and is kept by every step holds at every moment. -/
theorem induct {P : Probe α N → Finset (Slot N) → Prop}
    (houtset : P (Probe.start s i reach) ∅)
    (hnext : ∀ p improved, Measured cost reach top s R i p improved → p.done = false →
      P p improved → P (p.step .ofOrder cost) (improved ∪ p.improvedNow .ofOrder cost))
    (h : Measured cost reach top s R i p improved) : P p improved := by
  -- Induction on the moment alone: what is known of the row is the same at all its moments.
  have hmoment := h.moment
  induction hmoment with
  | outset => exact houtset
  | @next p improved hmoment hdone ih =>
      have hold : Measured cost reach top s R i p improved := { h with moment := hmoment }
      exact hnext p improved hold hdone (ih hold)

theorem root_mem (h : Measured cost reach top s R i p improved) (hdone : p.done = false) :
    0 ∈ (p.step .ofOrder cost).visited :=
  h.moment.root_mem h.balanced.toSettled h.fresh h.row_ne_zero hdone

theorem newRow_mem (h : Measured cost reach top s R i p improved) (hdone : p.done = false) :
    i ∈ (p.step .ofOrder cost).visited.map (fun j => p.rowOf[j]) :=
  h.moment.newRow_mem h.balanced.toSettled h.fresh h.row_ne_zero hdone

/-- A matched row or the new one is a row. -/
theorem ne_zero (h : Measured cost reach top s R i p improved) {r : Slot N} (hr : r ∈ R ∨ r = i) :
    r ≠ 0 := by
  rcases hr with hr | rfl
  · exact ((h.balanced.placed.mem_iff r).mp hr).1
  · exact h.row_ne_zero

variable [IsStrictOrderedRing α]

theorem underway (h : Measured cost reach top s R i p improved) :
    ∃ y, Underway cost reach s R i y p := by
  rcases h.balanced.placed.exists_vacant h.fresh h.row_ne_zero with ⟨y, hy, hvacant⟩
  exact ⟨y, h.moment.underway h.balanced h.fresh h.row_ne_zero hy hvacant (h.cost_lt hy)⟩

/-! ### Reduced costs and prices -/

/-- As no cost is negative, the new row is feasible before the first step, too. -/
theorem feasible (h : Measured cost reach top s R i p improved) {r j : Slot N}
    (hr : r ∈ R ∨ r = i) (hj : j ≠ 0) : 0 ≤ Probe.reduced .ofOrder cost p.toState r j := by
  rcases h.underway with ⟨y, w⟩
  rcases hr with hr | rfl
  · exact w.explored.feasible r (Or.inl hr) j hj
  -- The tree is empty at the outset, so the invariant says nothing of the new row there.
  · cases h.moment with
    | outset =>
        have hcost := h.costs.nonneg r j h.row_ne_zero hj
        have hcol : (Probe.start s r reach).colPotential[j] ≤ 0 := h.balanced.nonpos j hj
        have hrow : (Probe.start s r reach).rowPotential[r] = 0 := h.balanced.untouched r h.fresh
        rw [Probe.reduced_eq, hrow]
        linarith
    | next hmoment hdone =>
        have hq := hmoment.reaches h.balanced.toSettled h.fresh h.row_ne_zero hdone
        refine w.explored.feasible r (Or.inr ⟨rfl, ?_⟩) j hj
        rw [hq.visited]
        exact List.cons_ne_nil _ _

/-- The price of a step is a reduced cost of a row in the tree. -/
theorem price_eq (h : Measured cost reach top s R i p improved) (hdone : p.done = false) :
    ∃ r, (r ∈ R ∨ r = i) ∧ Probe.price .ofOrder cost p (p.step .ofOrder cost) =
      Probe.reduced .ofOrder cost p.toState r (p.step .ofOrder cost).column := by
  rcases h.underway with ⟨y, w⟩
  have hq := w.reaches hdone
  have ht := w.tree_step hdone
  rcases w.explored.price_eq ht hq w.column_ne_zero w.rowOf_column (w.outside hdone) w.below
    with ⟨x, hx, _, hprice⟩
  exact ⟨_, h.tree.row_mem h.balanced.placed (hq.rowOf ▸ ht.occupied x hx), hprice⟩

theorem price_nonneg (h : Measured cost reach top s R i p improved) (hdone : p.done = false) :
    0 ≤ Probe.price .ofOrder cost p (p.step .ofOrder cost) := by
  rcases h.price_eq hdone with ⟨r, hr, hprice⟩
  rw [hprice]
  exact h.feasible hr (h.reaches hdone).column_ne_zero

/-! ### Potentials -/

omit [IsStrictOrderedRing α] in
/-- What the new row has gathered, the virtual column has lost. -/
theorem virtual_add (h : Measured cost reach top s R i p improved) :
    p.colPotential[(0 : Slot N)] + p.rowPotential[i] = s.colPotential[(0 : Slot N)] := by
  have hrow : (Probe.start s i reach).rowPotential[i] = 0 := h.balanced.untouched i h.fresh
  refine h.induct (P := fun p _ => p.colPotential[(0 : Slot N)] + p.rowPotential[i] = _)
    ((congrArg _ hrow).trans (add_zero _)) fun p improved h hdone ih => ?_
  have hq := h.reaches hdone
  -- The virtual column and the new row are in the tree from the first step on, and take the
  -- same price with opposite signs.
  rw [hq.colPotential, if_pos (h.root_mem hdone), hq.rowPotential, if_pos (h.newRow_mem hdone),
    ← ih]
  simp only [Arithmetic.ofOrder]
  ring

/-- No step has a negative price, so the new row only gathers. -/
theorem newRow_nonneg (h : Measured cost reach top s R i p improved) :
    0 ≤ p.rowPotential[i] := by
  have hrow : (Probe.start s i reach).rowPotential[i] = 0 := h.balanced.untouched i h.fresh
  refine h.induct (P := fun p _ => (0 : α) ≤ p.rowPotential[i]) (le_of_eq hrow.symm)
    fun p improved h hdone ih => ?_
  rw [(h.reaches hdone).rowPotential, if_pos (h.newRow_mem hdone)]
  exact add_nonneg ih (h.price_nonneg hdone)

/-- The cell of a matched row is tight, so the row has gathered what it costs and what its column
    has lost. -/
theorem exists_tight (h : Measured cost reach top s R i p improved) {r : Slot N} (hr : r ∈ R) :
    ∃ j, j ≠ 0 ∧ p.rowPotential[r] = cost r j - p.colPotential[j] := by
  rcases h.underway with ⟨y, w⟩
  -- Matched rows stay where they are until the search is over.
  rcases (h.balanced.placed.mem_iff r).mp hr with ⟨hr0, j, hj, hjr⟩
  have htight := w.explored.tight j r hj ((h.tree.rowOf_of_ne hj).trans hjr) hr0
  rw [Probe.reduced_eq, sub_right_comm, sub_eq_zero] at htight
  exact ⟨j, hj, htight.symm⟩

theorem rowPotential_nonneg (h : Measured cost reach top s R i p improved) (r : Slot N) :
    0 ≤ p.rowPotential[r] := by
  rcases h.underway with ⟨y, w⟩
  by_cases hr : r ∈ R
  · rcases h.exists_tight hr with ⟨j, hj, htight⟩
    have hcost := h.costs.nonneg r j (h.ne_zero (Or.inl hr)) hj
    have hcol := w.explored.nonpos j hj
    rw [htight]
    linarith
  · by_cases hri : r = i
    · rw [hri]
      exact h.newRow_nonneg
    · exact le_of_eq (w.explored.untouched r hr hri).symm

/-- No row gathers more than its cost in the column without a row. -/
theorem rowPotential_le (h : Measured cost reach top s R i p improved) (r : Slot N) :
    p.rowPotential[r] ≤ top := by
  rcases h.underway with ⟨y, w⟩
  by_cases hr : r ∈ R ∨ r = i
  -- The column without a row has lost nothing, so no feasible row has gathered more than its cost.
  · have hcell := h.feasible hr w.column_ne_zero
    have hcost := h.costs.le_top r y (h.ne_zero hr) w.column_ne_zero
    rw [Probe.reduced_eq, w.explored.vacant y w.column_ne_zero w.rowOf_column] at hcell
    linarith
  · rw [not_or] at hr
    rw [w.explored.untouched r hr.1 hr.2]
    exact (h.costs.nonneg i y h.row_ne_zero w.column_ne_zero).trans
      (h.costs.le_top i y h.row_ne_zero w.column_ne_zero)

theorem colPotential_le (h : Measured cost reach top s R i p improved) {j : Slot N} (hj : j ≠ 0) :
    p.colPotential[j] ≤ 0 := by
  rcases h.underway with ⟨y, w⟩
  exact w.explored.nonpos j hj

/-- No column loses more than its row has gathered. -/
theorem colPotential_ge (h : Measured cost reach top s R i p improved) {j : Slot N} (hj : j ≠ 0) :
    -top ≤ p.colPotential[j] := by
  rcases h.underway with ⟨y, w⟩
  by_cases hrow : p.rowOf[j] = 0
  · have htop := (h.rowPotential_nonneg i).trans (h.rowPotential_le i)
    rw [w.explored.vacant j hj hrow]
    linarith
  · have htight := w.explored.tight j _ hj rfl hrow
    have hcost := h.costs.nonneg p.rowOf[j] j hrow hj
    have hu := h.rowPotential_le p.rowOf[j]
    rw [Probe.reduced_eq] at htight
    linarith

theorem reduced_le (h : Measured cost reach top s R i p improved) {r j : Slot N} (hr : r ≠ 0)
    (hj : j ≠ 0) : Probe.reduced .ofOrder cost p.toState r j ≤ 2 * top := by
  have hcost := h.costs.le_top r j hr hj
  have hu := h.rowPotential_nonneg r
  have hv := h.colPotential_ge hj
  rw [Probe.reduced_eq]
  linarith

/-- The column without a row is no farther away than it costs. -/
theorem price_le (h : Measured cost reach top s R i p improved) (hdone : p.done = false) :
    Probe.price .ofOrder cost p (p.step .ofOrder cost) ≤ top := by
  rcases h.underway with ⟨y, w⟩
  have hle := w.price_le hdone
  have hu := h.newRow_nonneg
  have hcost := h.costs.le_top i y h.row_ne_zero w.column_ne_zero
  rw [Probe.reduced_eq, w.explored.vacant y w.column_ne_zero w.rowOf_column] at hle
  linarith

/-! ### The virtual column -/

/-- The virtual column has lost no more than the greatest cost for each matched row and the new
    one. -/
theorem virtual_ge (h : Measured cost reach top s R i p improved) (hsum : s.sumPotentials = 0) :
    -((R.card + 1 : ℕ) • top) ≤ p.colPotential[(0 : Slot N)] := by
  rcases h.balanced.holdsCheapest hsum with ⟨f, hf⟩
  -- Between two rows the virtual column has lost just what the matching costs.
  have hcosts : assignedCost cost R f ≤ R.card • top :=
    Finset.sum_le_card_nsmul R _ top fun r hr =>
      h.costs.le_top r (f r) (h.ne_zero (Or.inl hr)) (hf.assigns.ne_zero r hr)
  have hu := h.rowPotential_le i
  have hv := h.virtual_add
  have hvirtual := hf.virtual
  rw [succ_nsmul]
  linarith

theorem virtual_le (h : Measured cost reach top s R i p improved) (hsum : s.sumPotentials = 0) :
    p.colPotential[(0 : Slot N)] ≤ 0 := by
  rcases h.balanced.holdsCheapest hsum with ⟨f, hf⟩
  have hcosts : 0 ≤ assignedCost cost R f :=
    Finset.sum_nonneg fun r hr =>
      h.costs.nonneg r (f r) (h.ne_zero (Or.inl hr)) (hf.assigns.ne_zero r hr)
  have hu := h.newRow_nonneg
  have hv := h.virtual_add
  have hvirtual := hf.virtual
  linarith

/-! ### Improved slacks -/

omit [IsStrictOrderedRing α] in
/-- An improved slack is the reduced cost of a cell of the tree's rows, in the tree and outside
    it alike. -/
theorem slack_eq (h : Measured cost reach top s R i p improved) : ∀ j ∈ improved, j ≠ 0 ∧
    ∃ x ∈ p.visited, p.slack[j] = Probe.reduced .ofOrder cost p.toState p.rowOf[x] j := by
  refine h.induct (P := fun p improved => ∀ j ∈ improved, j ≠ 0 ∧ ∃ x ∈ p.visited,
    p.slack[j] = Probe.reduced .ofOrder cost p.toState p.rowOf[x] j)
    (fun j hj => absurd hj (Finset.notMem_empty j)) fun p improved h hdone ih => ?_
  have hq := h.reaches hdone
  intro j hj
  -- What is seen now or was seen before is a reduced cost before the step.
  have hseen : j ≠ 0 ∧ ∃ x ∈ (p.step .ofOrder cost).visited, (p.seen .ofOrder cost)[j] =
      Probe.reduced .ofOrder cost p.toState p.rowOf[x] j := by
    rw [Probe.seen_get, hq.visited]
    by_cases himp : p.enter.improves .ofOrder cost j = true
    · rw [if_pos himp]
      exact ⟨(Probe.improves_iff.mp himp).1, p.column, List.mem_cons_self, rfl⟩
    · rw [if_neg himp]
      rcases Finset.mem_union.mp hj with hj | hj
      · rcases ih j hj with ⟨hj0, x, hx, heq⟩
        exact ⟨hj0, x, List.mem_cons_of_mem _ hx, heq⟩
      · exact absurd (Probe.mem_improvedNow.mp hj) himp
  -- In the tree neither changes, and outside of it both fall by the price.
  rcases hseen with ⟨hj0, x, hx, heq⟩
  refine ⟨hj0, x, hx, ?_⟩
  rw [hq.slack, hq.reduced_of_mem hx, heq]
  by_cases hjt : j ∈ (p.step .ofOrder cost).visited
  · rw [if_pos hjt, if_pos hjt, sub_zero]
  · rw [if_neg hjt, if_neg hjt]
    rfl

end Measured

/-! ### Whole numbers -/

/-- The rational numbers that are whole. -/
def wholeNumbers : Subring ℚ := (Int.castRingHom ℚ).range

/-- A whole number from `low` to `high`. -/
def WholeIn (low high : ℤ) (x : ℚ) : Prop := ∃ z : ℤ, x = z ∧ low ≤ z ∧ z ≤ high

theorem WholeIn.of_mem {low high : ℤ} {x : ℚ} (hx : x ∈ wholeNumbers) (hlow : (low : ℚ) ≤ x)
    (hhigh : x ≤ high) : WholeIn low high x := by
  rcases RingHom.mem_range.mp hx with ⟨z, rfl⟩
  exact ⟨z, rfl, Int.cast_le.mp hlow, Int.cast_le.mp hhigh⟩

/-- All potentials are whole. -/
structure WholePotentials (s : State ℚ N) : Prop where
  row : ∀ r : Slot N, s.rowPotential[r] ∈ wholeNumbers
  col : ∀ j : Slot N, s.colPotential[j] ∈ wholeNumbers

theorem WholePotentials.start : WholePotentials (State.start (.ofOrder (α := ℚ)) N) := by
  constructor
  · intro r
    simp only [State.start, replicate_get]
    exact wholeNumbers.zero_mem
  · intro j
    simp only [State.start, replicate_get]
    exact wholeNumbers.zero_mem

section Whole

variable {cost : Slot N → Slot N → ℤ} {reach top : ℚ} {s : State ℚ N} {R : Finset (Slot N)}
  {i : Slot N} {p : Probe ℚ N} {improved : Finset (Slot N)}

/-- Whole costs as rational ones. -/
def exactCosts (cost : Slot N → Slot N → ℤ) (r j : Slot N) : ℚ := cost r j

theorem WholePotentials.reduced (h : WholePotentials s) (r j : Slot N) :
    Probe.reduced .ofOrder (exactCosts cost) s r j ∈ wholeNumbers := by
  rw [Probe.reduced_eq]
  exact wholeNumbers.sub_mem (wholeNumbers.sub_mem ⟨cost r j, rfl⟩ (h.row r)) (h.col j)

/-- A step adds a reduced cost to some potentials and takes it from others. -/
theorem Measured.wholePotentials (hs : WholePotentials s)
    (h : Measured (exactCosts cost) reach top s R i p improved) :
    WholePotentials p.toState := by
  refine h.induct (P := fun p _ => WholePotentials p.toState) ⟨hs.row, hs.col⟩
    fun p improved h hdone ih => ?_
  have hq := h.reaches hdone
  rcases h.price_eq hdone with ⟨r, _, hprice⟩
  -- The price is a reduced cost, hence a difference of whole numbers.
  have hwhole : Probe.price .ofOrder (exactCosts cost) p (p.step .ofOrder (exactCosts cost)) ∈
      wholeNumbers := hprice ▸ ih.reduced r _
  constructor
  · intro r
    rw [hq.rowPotential]
    by_cases hr : r ∈ (p.step .ofOrder (exactCosts cost)).visited.map (fun j => p.rowOf[j])
    · rw [if_pos hr]
      exact wholeNumbers.add_mem (ih.row r) hwhole
    · rw [if_neg hr]
      exact ih.row r
  · intro j
    rw [hq.colPotential]
    by_cases hj : j ∈ (p.step .ofOrder (exactCosts cost)).visited
    · rw [if_pos hj]
      exact wholeNumbers.sub_mem (ih.col j) hwhole
    · rw [if_neg hj]
      exact ih.col j

/-- Handing rows back moves no potential. -/
theorem WholePotentials.insertRow {next : State ℚ N} (hs : WholePotentials s)
    (b : Balanced (exactCosts cost) s R) (hi : i ∉ R) (hi0 : i ≠ 0)
    (hcosts : CostsWithin (exactCosts cost) top) (hreach : top < reach)
    (h : (Search.insertRow .ofOrder (exactCosts cost) reach s i).state = some next) :
    WholePotentials next := by
  have hopen : (Probe.start s i reach).done = false := Probe.start_not_done hi0
  rcases Probe.Moment.run hopen (N + 1) with ⟨improved, hmoment⟩
  have hmeasured : Measured (exactCosts cost) reach top s R i
      (Search.insertRow .ofOrder (exactCosts cost) reach s i).probe improved :=
    ⟨b, hi, hi0, hcosts, hreach, hmoment⟩
  have hwhole := hmeasured.wholePotentials hs
  rcases insertRow_state h with ⟨columns, _, rfl⟩
  exact ⟨hwhole.row, hwhole.col⟩

theorem exists_inserted_whole (hcosts : CostsWithin (exactCosts (N := N) cost) top)
    (hreach : top < reach) (k : Nat) : ∃ before,
      inserted .ofOrder (exactCosts cost) reach (State.start .ofOrder N) ((rows N).take k) =
        some before ∧
      Balanced (exactCosts cost) before ((rows N).take k).toFinset ∧ WholePotentials before := by
  have hcost : ∀ r j : Slot N, r ≠ 0 → j ≠ 0 → exactCosts cost r j < reach := fun r j hr hj =>
    (hcosts.le_top r j hr hj).trans_lt hreach
  have hstep : ∀ (s : State ℚ N) (R : Finset (Slot N)) (i : Slot N) (next : State ℚ N),
      Balanced (exactCosts cost) s R ∧ WholePotentials s → i ∉ R → i ≠ 0 →
      (Search.insertRow .ofOrder (exactCosts cost) reach s i).state = some next →
      Balanced (exactCosts cost) next (insert i R) ∧ WholePotentials next := by
    rintro s R i next ⟨b, hs⟩ hi hi0 hnext
    rcases b.insertRow hi hi0 fun j hj => hcost i j hi0 hj with ⟨next', hnext', b'⟩
    rcases Option.some.inj (hnext.symm.trans hnext') with rfl
    exact ⟨b', hs.insertRow b hi hi0 hcosts hreach hnext⟩
  rcases exists_inserted hcost k with ⟨before, hbefore, b⟩
  -- Balance and wholeness go through the rows together, as the step for one needs the other.
  have hkept := inserted_keeps hstep _ _ ∅ before ⟨Balanced.start _, WholePotentials.start⟩
    (fresh_take N k) hbefore
  exact ⟨before, hbefore, b, hkept.2⟩

/-- Before the last row there is room for one more. -/
theorem card_take_rows {k : Nat} (hk : k < N) : ((rows N).take k).toFinset.card + 1 ≤ N := by
  have hle := List.toFinset_card_le ((rows N).take k)
  rw [List.length_take] at hle
  omega

/-- The reduced costs of matched rows and of the new one. -/
theorem Measured.wholeIn_reduced {top : ℤ}
    (h : Measured (exactCosts cost) reach top s R i p improved) (hs : WholePotentials s)
    {r j : Slot N} (hr : r ∈ R ∨ r = i) (hj : j ≠ 0) :
    WholeIn 0 (2 * top) (Probe.reduced .ofOrder (exactCosts cost) p.toState r j) := by
  refine .of_mem ((h.wholePotentials hs).reduced r j) ?_ ?_
  · exact_mod_cast h.feasible hr hj
  · exact_mod_cast h.reduced_le (h.ne_zero hr) hj

end Whole

/-- The numbers that a search works with at a moment, each with the bounds that hold when costs
    are whole numbers up to `top`: the potentials, the price of the step that comes, what that
    step sees from the row of the reached column, and the slacks that were improved. -/
inductive Works {N : Nat} (cost : Slot N → Slot N → ℤ) (top : ℤ) (p : Probe ℚ N)
    (improved : Finset (Slot N)) : ℤ → ℤ → ℚ → Prop
  | rowPotential (r : Slot N) : Works cost top p improved 0 top p.rowPotential[r]
  | colPotential (j : Slot N) (hj : j ≠ 0) :
      Works cost top p improved (-top) 0 p.colPotential[j]
  | virtual : Works cost top p improved (-(N * top)) 0 p.colPotential[(0 : Slot N)]
  | price (hdone : p.done = false) : Works cost top p improved 0 top
      (Probe.price .ofOrder (exactCosts cost) p (p.step .ofOrder (exactCosts cost)))
  | distance (hdone : p.done = false) (j : Slot N) (hj : j ≠ 0)
      (hout : j ∉ p.column :: p.visited) : Works cost top p improved 0 (2 * top)
      (Probe.reduced .ofOrder (exactCosts cost) p.toState p.rowOf[p.column] j)
  | slack (j : Slot N) (hj : j ∈ improved) :
      Works cost top p improved 0 (2 * top) p.slack[j]

theorem Measured.works {N : Nat} {cost : Slot N → Slot N → ℤ} {top : ℤ} {reach : ℚ}
    {s : State ℚ N} {R : Finset (Slot N)} {i : Slot N} {p : Probe ℚ N}
    {improved : Finset (Slot N)} (h : Measured (exactCosts cost) reach top s R i p improved)
    (hs : WholePotentials s) (hsum : s.sumPotentials = 0) (hcard : R.card + 1 ≤ N) {low high : ℤ}
    {x : ℚ} (hx : Works cost top p improved low high x) : WholeIn low high x := by
  have hwhole := h.wholePotentials hs
  have htop : (0 : ℚ) ≤ top := (h.rowPotential_nonneg i).trans (h.rowPotential_le i)
  cases hx with
  | rowPotential r =>
      exact .of_mem (hwhole.row r) (by exact_mod_cast h.rowPotential_nonneg r)
        (h.rowPotential_le r)
  | colPotential j hj =>
      exact .of_mem (hwhole.col j) (by exact_mod_cast h.colPotential_ge hj)
        (by exact_mod_cast h.colPotential_le hj)
  | virtual =>
      refine .of_mem (hwhole.col 0) ?_ (by exact_mod_cast h.virtual_le hsum)
      -- Only here does the number of rows come in.
      have hge := h.virtual_ge hsum
      have hle : ((R.card + 1 : ℕ) : ℚ) * top ≤ N * top :=
        mul_le_mul_of_nonneg_right (Nat.cast_le.mpr hcard) htop
      rw [nsmul_eq_mul] at hge
      push_cast at hge hle ⊢
      linarith
  | price hdone =>
      rcases h.price_eq hdone with ⟨r, _, hprice⟩
      refine .of_mem (hprice ▸ hwhole.reduced r _) ?_ (h.price_le hdone)
      exact_mod_cast h.price_nonneg hdone
  | distance hdone j hj hout =>
      have hocc : p.rowOf[p.column] ≠ 0 := fun h0 => by
        rw [Probe.done_iff.mpr h0] at hdone
        exact absurd hdone Bool.noConfusion
      exact h.wholeIn_reduced hs (h.tree.row_mem h.balanced.placed hocc) hj
  | slack j hj =>
      rcases h.slack_eq j hj with ⟨hj0, x, hx, heq⟩
      rw [heq]
      exact h.wholeIn_reduced hs (h.tree.row_mem h.balanced.placed (h.tree.occupied x hx)) hj0

/-- With costs of a limited size, the bounds of all these numbers are within fifty-three binary
    digits. -/
theorem Works.bounds {N : Nat} {cost : Slot N → Slot N → ℤ} {top low high : ℤ} {p : Probe ℚ N}
    {improved : Finset (Slot N)} {x : ℚ} (hx : Works cost top p improved low high x)
    (htop : 0 ≤ top) (htwice : 2 * top < 2 ^ 53) (hall : N * top < 2 ^ 53) :
    -2 ^ 53 < low ∧ high < 2 ^ 53 := by
  cases hx with
  | rowPotential r => omega
  | colPotential j hj => omega
  | virtual => omega
  | price hdone => omega
  | distance hdone j hj hout => omega
  | slack j hj => omega

theorem WholeIn.exists_double {low high : ℤ} {x : ℚ} (h : WholeIn low high x)
    (hlow : -2 ^ 53 < low) (hhigh : high < 2 ^ 53) :
    ∃ d : Float, Binary64.toRat? d = some x := by
  rcases h with ⟨z, rfl, hz, hz'⟩
  exact ⟨Binary64.ofWhole z, Binary64.toRat?_ofWhole (by omega)⟩

/-- At every moment of every row's search all numbers are whole and keep their bounds, when the
    costs are whole numbers from zero up to a greatest one below the cap. The bounds of potentials
    and prices do not grow with the number of rows, but for the virtual column. If they are within
    fifty-three binary digits, every one of these numbers is that of some double. -/
theorem stages_whole {N : Nat} (cost : Slot N → Slot N → ℤ) (top : ℤ) (reach : ℚ)
    (hcost : ∀ r j, r ≠ 0 → j ≠ 0 → 0 ≤ cost r j ∧ cost r j ≤ top) (hreach : (top : ℚ) < reach) :
    ∀ k (hk : k < N), ∃ before,
      inserted .ofOrder (exactCosts cost) reach (State.start .ofOrder N) ((rows N).take k) =
        some before ∧
      (stages .ofOrder N (exactCosts cost) reach)[k]? =
        some (insertRow .ofOrder (exactCosts cost) reach before (Fin.succ ⟨k, hk⟩)) ∧
      (∃ improved, Probe.Moment .ofOrder (exactCosts cost)
        (Probe.start before (Fin.succ ⟨k, hk⟩) reach)
        (insertRow .ofOrder (exactCosts cost) reach before (Fin.succ ⟨k, hk⟩)).probe improved) ∧
      ∀ p improved, Probe.Moment .ofOrder (exactCosts cost)
          (Probe.start before (Fin.succ ⟨k, hk⟩) reach) p improved →
        ∀ low high x, Works cost top p improved low high x →
          WholeIn low high x ∧
          (2 * top < 2 ^ 53 → N * top < 2 ^ 53 → ∃ d : Float, Binary64.toRat? d = some x) := by
  intro k hk
  have hcosts : CostsWithin (exactCosts cost) (top : ℚ) :=
    ⟨fun r j hr hj => Int.cast_nonneg (hcost r j hr hj).1,
      fun r j hr hj => Int.cast_le.mpr (hcost r j hr hj).2⟩
  rcases exists_inserted_whole hcosts hreach k with ⟨before, hbefore, b, hwhole⟩
  have hi := succ_not_mem_take hk
  have hi0 := Fin.succ_ne_zero (⟨k, hk⟩ : Fin N)
  have hopen : (Probe.start before (Fin.succ ⟨k, hk⟩) reach).done = false :=
    Probe.start_not_done hi0
  refine ⟨before, hbefore, stages_get hk hbefore, Probe.Moment.run hopen (N + 1), ?_⟩
  intro p improved hmoment low high x hx
  -- Any moment of the search for the next row, from the state that the first `k` rows have left.
  have h : Measured (exactCosts cost) reach top before ((rows N).take k).toFinset
      (Fin.succ ⟨k, hk⟩) p improved := ⟨b, hi, hi0, hcosts, hreach, hmoment⟩
  have hin := h.works hwhole (inserted_sum_potentials hbefore) (card_take_rows hk) hx
  refine ⟨hin, fun htwice hall => ?_⟩
  have htop : 0 ≤ top := (hcost _ _ hi0 hi0).1.trans (hcost _ _ hi0 hi0).2
  have hbounds := hx.bounds htop htwice hall
  exact hin.exists_double hbounds.1 hbounds.2

/-- Costs at which every row wants the first column. -/
def productCosts (r j : Slot 3) : ℤ := (r.val * j.val : ℕ)

theorem stages_whole_productCosts :
    (∀ r j : Slot 3, r ≠ 0 → j ≠ 0 → 0 ≤ productCosts r j ∧ productCosts r j ≤ 9) ∧
    ((9 : ℤ) : ℚ) < 10 ∧
    ∀ k (hk : k < 3), ∃ before,
      inserted .ofOrder (exactCosts productCosts) 10 (State.start .ofOrder 3) ((rows 3).take k) =
        some before ∧
      (stages .ofOrder 3 (exactCosts productCosts) 10)[k]? =
        some (insertRow .ofOrder (exactCosts productCosts) 10 before (Fin.succ ⟨k, hk⟩)) ∧
      (∃ improved, Probe.Moment .ofOrder (exactCosts productCosts)
        (Probe.start before (Fin.succ ⟨k, hk⟩) 10)
        (insertRow .ofOrder (exactCosts productCosts) 10 before (Fin.succ ⟨k, hk⟩)).probe
        improved) ∧
      ∀ p improved, Probe.Moment .ofOrder (exactCosts productCosts)
          (Probe.start before (Fin.succ ⟨k, hk⟩) 10) p improved →
        ∀ low high x, Works productCosts 9 p improved low high x →
          WholeIn low high x ∧ ∃ d : Float, Binary64.toRat? d = some x := by
  have hcost : ∀ r j : Slot 3, r ≠ 0 → j ≠ 0 → 0 ≤ productCosts r j ∧ productCosts r j ≤ 9 := by
    decide
  have hreach : ((9 : ℤ) : ℚ) < 10 := by norm_num
  refine ⟨hcost, hreach, fun k hk => ?_⟩
  rcases stages_whole productCosts 9 10 hcost hreach k hk with ⟨before, hbefore, hstage, hrun, hall⟩
  refine ⟨before, hbefore, hstage, hrun, fun p improved hmoment low high x hx => ?_⟩
  have hin := hall p improved hmoment low high x hx
  exact ⟨hin.1, hin.2 (by decide) (by decide)⟩

end Search

end Roster
