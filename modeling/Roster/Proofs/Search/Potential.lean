import Mathlib.Algebra.Order.Ring.Defs
import Mathlib.Tactic.Linarith
import Mathlib.Tactic.Ring
import Roster.Proofs.Search.Insertion

/-!
# Potentials

The search in exact arithmetic. Its numbers form a linearly ordered commutative ring, so
the same statements hold of whole numbers and of rationals.

Between two insertions the potentials balance the costs of the matched rows: no reduced
cost of such a row is negative, those of matched cells are zero, and a column without a
row has potential zero. `Balanced` says this. During a search it stays true of the old
matching, but the new row joins only with the first step, and what else is kept says what
slacks and links mean: `Explored`. A slack never exceeds the reduced cost of a cell of the
tree, and it is either such a cost, reached along the link, or it is still the cap `reach`
less the potential that the new row has gathered so far.

The second alternative is the trap. Reduced costs may exceed any cap that only bounds the
costs themselves, so slacks that are never improved do occur, with links that mean
nothing. What saves the search is a column without a row: its potential is zero, so the
new row sees it below the cap, and the nearest column lies below the cap as well.

## Main definitions

* `Balanced`: What is true between two insertions.
* `Explored`: What is true between two steps of a search.

## Theorems

* `Probe.Reaches.reduced_eq`: How a step changes reduced costs.
* `Explored.feasible_of_reaches`, `Explored.link_of_reaches`: What a step does to reduced
  costs and to links.
* `Explored.of_reaches`: A step keeps what a search keeps.
* `Explored.trail_exists`: The way back of a search ends.
* `Explored.balanced`: Handing rows back along it restores the balance.
-/

namespace Roster

namespace Search

variable {α : Type} {N : Nat}

theorem leastBy_le [LinearOrder α] (x : α) (xs : List α) :
    ∀ y ∈ x :: xs, (x :: xs).get (leastBy (fun a b => decide (a < b)) x xs) ≤ y := by
  induction xs generalizing x with
  | nil =>
      intro y hy
      exact le_of_eq (List.mem_singleton.mp hy).symm
  | cons z zs ih =>
      intro y hy
      have hrest := ih z
      simp only [leastBy, decide_eq_true_eq]
      split
      · rename_i hlt
        rcases List.mem_cons.mp hy with rfl | hy
        · exact le_of_lt hlt
        · exact hrest y hy
      · rename_i hge
        rcases List.mem_cons.mp hy with rfl | hy
        · exact le_refl _
        · exact (not_lt.mp hge).trans (hrest y hy)

variable [CommRing α] [LinearOrder α] {cost : Slot N → Slot N → α} {reach : α}

namespace Probe

/-- The reduced cost of a cell in exact arithmetic. -/
theorem reduced_eq (cost : Slot N → Slot N → α) (s : State α N) (r j : Slot N) :
    reduced .ofOrder cost s r j = cost r j - s.rowPotential[r] - s.colPotential[j] := rfl

/-- The nearest column is nearest. -/
theorem nearest_le {slack : Vector α (N + 1)} {c j : Slot N} {js : List (Slot N)}
    (hc : c = nearest .ofOrder slack j js) : ∀ k ∈ j :: js, slack[c] ≤ slack[k] := by
  intro k hk
  let f : Slot N → α := fun k => slack[k]
  have hget : (f j :: js.map f).get (leastBy (fun a b => decide (a < b)) (f j) (js.map f))
      = f c := by
    rw [hc]
    exact List.getElem_map (l := j :: js) f
  have hle := leastBy_le (f j) (js.map f) (f k) (List.mem_map_of_mem (f := f) hk)
  rw [hget] at hle
  exact hle

/-- A column outside the tree is improved if it is seen below its slack. -/
theorem improves_iff_lt (cost : Slot N → Slot N → α) {p : Probe α N} {j : Slot N} (hj : j ≠ 0)
    (hout : j ∉ p.column :: p.visited) : p.enter.improves .ofOrder cost j = true ↔
      reduced .ofOrder cost p.toState p.rowOf[p.column] j < p.slack[j] := by
  rw [improves_iff]
  exact ⟨fun h => of_decide_eq_true h.2.2, fun h => ⟨hj, hout, decide_eq_true h⟩⟩

/-- Looking at a column from the row of the reached one improves its slack or leaves it. -/
theorem seen_cases (cost : Slot N → Slot N → α) {p : Probe α N} {j : Slot N} (hj : j ≠ 0)
    (hout : j ∉ p.column :: p.visited) :
    (p.enter.improves .ofOrder cost j = true ∧
      (p.seen .ofOrder cost)[j] = reduced .ofOrder cost p.toState p.rowOf[p.column] j ∧
      (p.seen .ofOrder cost)[j] ≤ p.slack[j]) ∨
    (p.enter.improves .ofOrder cost j = false ∧ (p.seen .ofOrder cost)[j] = p.slack[j] ∧
      p.slack[j] ≤ reduced .ofOrder cost p.toState p.rowOf[p.column] j) := by
  have hiff := improves_iff_lt cost hj hout
  cases himp : p.enter.improves .ofOrder cost j with
  | true =>
      refine Or.inl ⟨rfl, ?_, ?_⟩
      · rw [seen_get, if_pos himp]
      · rw [seen_get, if_pos himp]
        exact le_of_lt (hiff.mp himp)
  | false =>
      have hnot : ¬ p.enter.improves .ofOrder cost j = true := by
        rw [himp]
        exact Bool.false_ne_true
      refine Or.inr ⟨rfl, ?_, not_lt.mp fun hlt => hnot (hiff.mpr hlt)⟩
      rw [seen_get, if_neg hnot]

namespace Reaches

variable {p q : Probe α N}

theorem price_le (hq : Reaches .ofOrder cost p q) {j : Slot N} (hj : j ≠ 0)
    (hout : j ∉ q.visited) : price .ofOrder cost p q ≤ (p.seen .ofOrder cost)[j] := by
  rcases hq.nearest with ⟨k, others, hall, hcol⟩
  exact nearest_le hcol j (hall j hj (hq.visited ▸ hout))

/-- A step lowers the reduced costs of the tree's rows and raises those of its columns. -/
theorem reduced_eq (hq : Reaches .ofOrder cost p q) (r j : Slot N) :
    reduced .ofOrder cost q.toState r j = reduced .ofOrder cost p.toState r j -
      (if r ∈ q.visited.map (fun j => p.rowOf[j]) then price .ofOrder cost p q else 0) +
      (if j ∈ q.visited then price .ofOrder cost p q else 0) := by
  rw [Probe.reduced_eq, Probe.reduced_eq, hq.rowPotential, hq.colPotential]
  generalize price .ofOrder cost p q = d
  simp only [Arithmetic.ofOrder]
  split <;> split <;> ring

/-- In a cell of the tree's rows a step takes its price off, unless the column is in the tree
    too. -/
theorem reduced_of_mem (hq : Reaches .ofOrder cost p q) {x : Slot N} (hx : x ∈ q.visited)
    (j : Slot N) : reduced .ofOrder cost q.toState q.rowOf[x] j =
      reduced .ofOrder cost p.toState p.rowOf[x] j -
        (if j ∈ q.visited then 0 else price .ofOrder cost p q) := by
  have hrow : p.rowOf[x] ∈ q.visited.map (fun j => p.rowOf[j]) := List.mem_map.mpr ⟨x, hx, rfl⟩
  rw [hq.reduced_eq, hq.rowOf, if_pos hrow]
  by_cases hjt : j ∈ q.visited
  · rw [if_pos hjt, if_pos hjt]
    ring
  · rw [if_neg hjt, if_neg hjt]
    ring

end Reaches

end Probe

/-- What is true between two insertions when the rows of `R` are matched. -/
structure Balanced (cost : Slot N → Slot N → α) (s : State α N) (R : Finset (Slot N)) : Prop
    extends Settled s R where
  feasible : ∀ r ∈ R, ∀ j, j ≠ 0 → 0 ≤ Probe.reduced .ofOrder cost s r j
  tight : ∀ j r : Slot N, j ≠ 0 → s.rowOf[j] = r → r ≠ 0 →
    Probe.reduced .ofOrder cost s r j = 0
  nonpos : ∀ j : Slot N, j ≠ 0 → s.colPotential[j] ≤ 0
  vacant : ∀ j : Slot N, j ≠ 0 → s.rowOf[j] = 0 → s.colPotential[j] = 0
  untouched : ∀ r : Slot N, r ∉ R → s.rowPotential[r] = 0

theorem Balanced.start (cost : Slot N → Slot N → α) :
    Balanced cost (State.start .ofOrder N) ∅ := by
  have hcol : ∀ j : Slot N, (State.start .ofOrder N).colPotential[j] = (0 : α) := fun j => by
    simp only [State.start, replicate_get]
    rfl
  have hrow : ∀ j : Slot N, (State.start (.ofOrder (α := α)) N).rowOf[j] = 0 := fun j => by
    simp only [State.start, replicate_get]
  refine ⟨Settled.start _, fun r hr => absurd hr (Finset.notMem_empty r), ?_, ?_, ?_, ?_⟩
  · intro j r _ hjr hr
    exact absurd (hjr.symm.trans (hrow j)) hr
  · intro j _
    exact le_of_eq (hcol j)
  · intro j _ _
    exact hcol j
  · intro r _
    simp only [State.start, replicate_get]
    rfl

/-- What is true between two steps of the search for row `i` when the rows of `R` are
    matched. -/
structure Explored (cost : Slot N → Slot N → α) (reach : α) (R : Finset (Slot N)) (i : Slot N)
    (p : Probe α N) : Prop where
  /-- The new row joins with the first step. -/
  feasible : ∀ r, r ∈ R ∨ r = i ∧ p.visited ≠ [] → ∀ j, j ≠ 0 →
    0 ≤ Probe.reduced .ofOrder cost p.toState r j
  tight : ∀ j r : Slot N, j ≠ 0 → p.rowOf[j] = r → r ≠ 0 →
    Probe.reduced .ofOrder cost p.toState r j = 0
  nonpos : ∀ j : Slot N, j ≠ 0 → p.colPotential[j] ≤ 0
  vacant : ∀ j : Slot N, j ≠ 0 → p.rowOf[j] = 0 → p.colPotential[j] = 0
  untouched : ∀ r : Slot N, r ∉ R → r ≠ i → p.rowPotential[r] = 0
  /-- No cell of the tree reaches a column below its slack. -/
  slack_le : ∀ x ∈ p.visited, ∀ j : Slot N, j ≠ 0 → j ∉ p.visited →
    p.slack[j] ≤ Probe.reduced .ofOrder cost p.toState p.rowOf[x] j
  /-- A slack that was never improved is the cap less all shifts; any other is the reduced
      cost at which its link was set. -/
  slack_eq : ∀ j : Slot N, j ≠ 0 → j ∉ p.visited → p.slack[j] + p.rowPotential[i] = reach ∨
    ∃ x ∈ p.visited, p.cameFrom[j] = x ∧
      p.slack[j] = Probe.reduced .ofOrder cost p.toState p.rowOf[x] j
  /-- A reached column was reached from an earlier one, at no reduced cost. -/
  link : ∀ (j : Slot N) (earlier : List (Slot N)), j :: earlier <:+ p.column :: p.visited → j ≠ 0 →
    ∃ x ∈ earlier, p.cameFrom[j] = x ∧
      Probe.reduced .ofOrder cost p.toState p.rowOf[x] j = 0

namespace Tree

variable {s : State α N} {R : Finset (Slot N)} {i : Slot N} {p : Probe α N}

omit [CommRing α] [LinearOrder α] in
theorem row_mem (h : Tree s i p) (hs : Placed s.rowOf 0 R) {x : Slot N} (hne : p.rowOf[x] ≠ 0) :
    p.rowOf[x] ∈ R ∨ p.rowOf[x] = i := by
  by_cases hx : x = 0
  · subst hx
    exact Or.inr h.rowOf_zero
  · rw [h.rowOf_of_ne hx] at hne ⊢
    exact Or.inl (hs.rowOf_mem hx hne)

omit [CommRing α] [LinearOrder α] in
/-- A row of the tree stands in a column of the tree. -/
theorem row_mem_map_iff (h : Tree s i p) (hs : Placed s.rowOf 0 R) (hi : i ∉ R)
    (columns : List (Slot N)) {j r : Slot N} (hjr : p.rowOf[j] = r) (hr : r ≠ 0) :
    r ∈ columns.map (fun j => p.rowOf[j]) ↔ j ∈ columns := by
  rw [List.mem_map]
  constructor
  · rintro ⟨k, hk, hkr⟩
    have hkj : k = j := h.once hs hi (hkr.trans hjr.symm) (hkr ▸ hr)
    exact hkj ▸ hk
  · intro hj
    exact ⟨j, hj, hjr⟩

omit [CommRing α] [LinearOrder α] in
theorem zero_mem_of_ne_nil (h : Tree s i p) (hne : p.visited ≠ []) : 0 ∈ p.visited :=
  h.root.elim (fun h0 => absurd h0.1 hne) And.left

omit [CommRing α] [LinearOrder α] in
/-- A column of the tree other than the virtual one was reached by an earlier step. -/
theorem visited_ne_nil {A : Arithmetic α} {q : Probe α N} (h : Tree s i p)
    (hq : Probe.Reaches A cost p q) {j : Slot N} (hj : j ≠ 0) (hmem : j ∈ q.visited) :
    p.visited ≠ [] := by
  intro hnil
  rw [hq.visited, hnil, List.mem_singleton] at hmem
  rcases h.root with ⟨_, h0⟩ | ⟨h0, _⟩
  · exact hj (hmem.trans h0)
  · exact absurd (hnil ▸ h0) List.not_mem_nil

omit [CommRing α] [LinearOrder α] in
-- The search has made a step, as it ended elsewhere than in the virtual column.
theorem visited_ne_nil_of_done (h : Tree s i p) (hi0 : i ≠ 0) (hdone : p.done = true) :
    p.visited ≠ [] := by
  intro hnil
  rcases h.root with ⟨_, h0⟩ | ⟨h0, _⟩
  · have hrow : p.rowOf[p.column] = i := by
      rw [h.rowOf, if_pos h0]
    exact hi0 (hrow.symm.trans (Probe.done_iff.mp hdone))
  · exact absurd (hnil ▸ h0) List.not_mem_nil

end Tree

namespace Explored

variable [IsStrictOrderedRing α] {s : State α N} {R : Finset (Slot N)} {i : Slot N}
  {p q : Probe α N}

omit [IsStrictOrderedRing α] in
theorem start (h : Balanced cost s R) (hi : i ∉ R) :
    Explored cost reach R i (Probe.start s i reach) := by
  have hrow : ∀ j : Slot N, j ≠ 0 → (Probe.start s i reach).rowOf[j] = s.rowOf[j] := fun j hj => by
    rw [Probe.start_rowOf, if_neg hj]
  refine ⟨?_, ?_, h.nonpos, ?_, fun r hr _ => h.untouched r hr, ?_, ?_, ?_⟩
  · rintro r (hr | ⟨_, hne⟩)
    · exact h.feasible r hr
    · exact absurd rfl hne
  · intro j r hj hjr
    exact h.tight j r hj ((hrow j hj).symm.trans hjr)
  · intro j hj h0
    exact h.vacant j hj ((hrow j hj).symm.trans h0)
  · intro x hx
    exact absurd hx List.not_mem_nil
  · intro j _ _
    left
    have hu : (Probe.start s i reach).rowPotential[i] = 0 := h.untouched i hi
    rw [hu, add_zero]
    simp only [Probe.start, replicate_get]
  · intro j earlier hsuf hj
    have hmem : j ∈ [(0 : Slot N)] := hsuf.subset List.mem_cons_self
    exact absurd (List.mem_singleton.mp hmem) hj

omit [IsStrictOrderedRing α] in
theorem seen_le (e : Explored cost reach R i p) (hq : Probe.Reaches .ofOrder cost p q)
    {x j : Slot N} (hx : x ∈ q.visited) (hj : j ≠ 0) (hout : j ∉ q.visited) :
    (p.seen .ofOrder cost)[j] ≤ Probe.reduced .ofOrder cost p.toState p.rowOf[x] j := by
  rw [hq.visited] at hx hout
  have hslack := fun hx' : x ∈ p.visited =>
    e.slack_le x hx' j hj fun hj' => hout (List.mem_cons_of_mem _ hj')
  rcases Probe.seen_cases cost hj hout with ⟨_, heq, hle⟩ | ⟨_, heq, hle⟩
  · rcases List.mem_cons.mp hx with rfl | hx
    · exact le_of_eq heq
    · exact hle.trans (hslack hx)
  · rw [heq]
    rcases List.mem_cons.mp hx with rfl | hx
    · exact hle
    · exact hslack hx

omit [IsStrictOrderedRing α] in
theorem seen_eq (e : Explored cost reach R i p) (hq : Probe.Reaches .ofOrder cost p q)
    {j : Slot N} (hj : j ≠ 0) (hout : j ∉ q.visited) :
    (p.seen .ofOrder cost)[j] + p.rowPotential[i] = reach ∨
      ∃ x ∈ q.visited, q.cameFrom[j] = x ∧
        (p.seen .ofOrder cost)[j] = Probe.reduced .ofOrder cost p.toState p.rowOf[x] j := by
  rw [hq.cameFrom]
  rw [hq.visited] at hout ⊢
  rcases Probe.seen_cases cost hj hout with ⟨himp, heq, _⟩ | ⟨himp, heq, _⟩
  · right
    rw [if_pos himp]
    exact ⟨p.column, List.mem_cons_self, rfl, heq⟩
  · rw [if_neg (Bool.eq_false_iff.mp himp), heq]
    rcases e.slack_eq j hj (fun hj' => hout (List.mem_cons_of_mem _ hj')) with hcap | ⟨x, hx, hxj⟩
    · exact Or.inl hcap
    · exact Or.inr ⟨x, List.mem_cons_of_mem _ hx, hxj⟩

/-- The nearest column lies below the cap, since the new row sees a column without a row
    there. -/
theorem price_lt (e : Explored cost reach R i p) (ht : Tree s i q)
    (hq : Probe.Reaches .ofOrder cost p q) {y : Slot N} (hy : y ≠ 0) (hrow : p.rowOf[y] = 0)
    (hout : y ∉ q.visited) (hcost : cost i y < reach) :
    Probe.price .ofOrder cost p q + p.rowPotential[i] < reach := by
  have hroot : 0 ∈ q.visited := ht.zero_mem_of_ne_nil (hq.visited ▸ List.cons_ne_nil _ _)
  have hle := (hq.price_le hy hout).trans (e.seen_le hq hroot hy hout)
  have hzero : p.rowOf[(0 : Slot N)] = i := hq.rowOf ▸ ht.rowOf_zero
  rw [hzero, Probe.reduced_eq, e.vacant y hy hrow] at hle
  linarith

/-- A reached column was reached along its link, at the price of the step. -/
theorem price_eq (e : Explored cost reach R i p) (ht : Tree s i q)
    (hq : Probe.Reaches .ofOrder cost p q) {y : Slot N} (hy : y ≠ 0) (hrow : p.rowOf[y] = 0)
    (hout : y ∉ q.visited) (hcost : cost i y < reach) :
    ∃ x ∈ q.visited, q.cameFrom[q.column] = x ∧ Probe.price .ofOrder cost p q =
      Probe.reduced .ofOrder cost p.toState p.rowOf[x] q.column := by
  have hlt := e.price_lt ht hq hy hrow hout hcost
  have hfresh : q.column ∉ q.visited := hq.visited ▸ hq.column_fresh
  rcases e.seen_eq hq hq.column_ne_zero hfresh with hcap | hlink
  · exact absurd hcap (ne_of_lt hlt)
  · exact hlink

/-- After the first step of a search no step has a negative price. -/
theorem price_nonneg (e : Explored cost reach R i p) (h : Tree s i p) (hs : Placed s.rowOf 0 R)
    (ht : Tree s i q) (hq : Probe.Reaches .ofOrder cost p q) {y : Slot N} (hy : y ≠ 0)
    (hrow : p.rowOf[y] = 0) (hout : y ∉ q.visited) (hcost : cost i y < reach)
    (hne : p.visited ≠ []) : 0 ≤ Probe.price .ofOrder cost p q := by
  rcases e.price_eq ht hq hy hrow hout hcost with ⟨x, hx, _, hprice⟩
  have hocc : p.rowOf[x] ≠ 0 := hq.rowOf ▸ ht.occupied x hx
  rw [hprice]
  refine e.feasible _ ?_ _ hq.column_ne_zero
  rcases h.row_mem hs hocc with hmem | heq
  · exact Or.inl hmem
  · exact Or.inr ⟨heq, hne⟩

/-- A step keeps the reduced costs nonnegative. Only cells from the tree to the outside get
    cheaper, and they can afford it. -/
theorem feasible_of_reaches (e : Explored cost reach R i p) (h : Tree s i p)
    (hq : Probe.Reaches .ofOrder cost p q) (hroot : 0 ∈ q.visited)
    (hpos : ∀ j, j ≠ 0 → j ∈ q.visited → 0 ≤ Probe.price .ofOrder cost p q) {r : Slot N}
    (hr : r ∈ R ∨ r = i) {j : Slot N} (hj : j ≠ 0) :
    0 ≤ Probe.reduced .ofOrder cost q.toState r j := by
  have hirow : i ∈ q.visited.map (fun j => p.rowOf[j]) :=
    List.mem_map.mpr ⟨0, hroot, h.rowOf_zero⟩
  -- The new row's cells are known to be nonnegative only behind the first step.
  have hold : r ∉ q.visited.map (fun j => p.rowOf[j]) ∨ j ∈ q.visited →
      0 ≤ Probe.reduced .ofOrder cost p.toState r j := by
    intro hcase
    refine e.feasible r ?_ j hj
    rcases hr with hr | rfl
    · exact Or.inl hr
    · exact Or.inr ⟨rfl, hcase.elim (fun hn => absurd hirow hn) (h.visited_ne_nil hq hj)⟩
  rw [hq.reduced_eq]
  by_cases hrt : r ∈ q.visited.map (fun j => p.rowOf[j])
  · rw [if_pos hrt]
    by_cases hjt : j ∈ q.visited
    · rw [if_pos hjt]
      linarith [hold (Or.inr hjt)]
    · -- The price is the least slack, and no slack is above the reduced cost.
      rw [if_neg hjt]
      rcases List.mem_map.mp hrt with ⟨x, hx, rfl⟩
      linarith [e.seen_le hq hx hj hjt, hq.price_le hj hjt]
  · rw [if_neg hrt]
    by_cases hjt : j ∈ q.visited
    · rw [if_pos hjt]
      linarith [hold (Or.inl hrt), hpos j hj hjt]
    · rw [if_neg hjt]
      linarith [hold (Or.inl hrt)]

omit [IsStrictOrderedRing α] in
/-- A step keeps matched cells tight: the row and the column of such a cell are both in the
    tree or both outside. -/
theorem tight_of_reaches (e : Explored cost reach R i p) (h : Tree s i p)
    (hs : Placed s.rowOf 0 R) (hi : i ∉ R) (hq : Probe.Reaches .ofOrder cost p q) {j r : Slot N}
    (hj : j ≠ 0) (hjr : p.rowOf[j] = r) (hr : r ≠ 0) :
    Probe.reduced .ofOrder cost q.toState r j = 0 := by
  have hiff := h.row_mem_map_iff hs hi q.visited hjr hr
  rw [hq.reduced_eq, e.tight j r hj hjr hr]
  by_cases hjt : j ∈ q.visited
  · rw [if_pos hjt, if_pos (hiff.mpr hjt)]
    ring
  · rw [if_neg hjt, if_neg (fun hrt => hjt (hiff.mp hrt))]
    ring

/-- The reached column is linked by the step that reaches it, and no step changes an older
    link. -/
theorem link_of_reaches (e : Explored cost reach R i p) (ht : Tree s i q)
    (hq : Probe.Reaches .ofOrder cost p q) {y : Slot N} (hy : y ≠ 0) (hrow : p.rowOf[y] = 0)
    (hout : y ∉ q.visited) (hcost : cost i y < reach) {j : Slot N} {earlier : List (Slot N)}
    (hsuf : j :: earlier <:+ q.column :: q.visited) (hj : j ≠ 0) :
    ∃ x ∈ earlier, q.cameFrom[j] = x ∧
      Probe.reduced .ofOrder cost q.toState q.rowOf[x] j = 0 := by
  rcases List.suffix_cons_iff.mp hsuf with heq | hold
  · -- The reached column is as far from the row of its link as the step costs, and comes nearer
    -- by just that.
    rcases List.cons.inj heq with ⟨rfl, rfl⟩
    have hfresh : q.column ∉ q.visited := hq.visited ▸ hq.column_fresh
    rcases e.price_eq ht hq hy hrow hout hcost with ⟨x, hx, hlink, hprice⟩
    refine ⟨x, hx, hlink, ?_⟩
    rw [hq.reduced_of_mem hx, if_neg hfresh, ← hprice, sub_self]
  · -- Within the tree a step changes no link and no distance.
    have hjt : j ∈ q.visited := hold.subset List.mem_cons_self
    rw [hq.visited] at hold
    rcases e.link j earlier hold hj with ⟨x, hx, hlink, htight⟩
    have hxt : x ∈ q.visited := hq.visited ▸ hold.subset (List.mem_cons_of_mem _ hx)
    refine ⟨x, hx, ?_, ?_⟩
    · rw [hq.cameFrom_of_mem hjt]
      exact hlink
    · rw [hq.reduced_of_mem hxt, if_pos hjt, htight, sub_zero]

/-- A step keeps what a search keeps. -/
theorem of_reaches (e : Explored cost reach R i p) (h : Tree s i p) (hs : Placed s.rowOf 0 R)
    (hi : i ∉ R) (ht : Tree s i q) (hq : Probe.Reaches .ofOrder cost p q)
    {y : Slot N} (hy : y ≠ 0) (hrow : p.rowOf[y] = 0) (hout : y ∉ q.visited)
    (hcost : cost i y < reach) : Explored cost reach R i q := by
  have hroot : 0 ∈ q.visited := ht.zero_mem_of_ne_nil (hq.visited ▸ List.cons_ne_nil _ _)
  have hirow : i ∈ q.visited.map (fun j => p.rowOf[j]) :=
    List.mem_map.mpr ⟨0, hroot, h.rowOf_zero⟩
  have hpos : ∀ j, j ≠ 0 → j ∈ q.visited → 0 ≤ Probe.price .ofOrder cost p q := fun j hj hmem =>
    e.price_nonneg h hs ht hq hy hrow hout hcost (h.visited_ne_nil hq hj hmem)
  refine ⟨fun r hr j hj => e.feasible_of_reaches h hq hroot hpos (hr.imp_right And.left) hj,
    fun j r hj hjr => e.tight_of_reaches h hs hi hq hj (hq.rowOf ▸ hjr), ?_, ?_, ?_, ?_, ?_,
    fun j earlier hsuf hj => e.link_of_reaches ht hq hy hrow hout hcost hsuf hj⟩
  · -- Columns only lose potential, as no price is negative once they are in the tree.
    intro j hj
    rw [hq.colPotential]
    by_cases hjt : j ∈ q.visited
    · rw [if_pos hjt]
      exact (sub_le_self _ (hpos j hj hjt)).trans (e.nonpos j hj)
    · rw [if_neg hjt]
      exact e.nonpos j hj
  · -- A column without a row is outside the tree, where no potential changes.
    intro j hj hjr
    have hjt : j ∉ q.visited := fun hmem => ht.occupied j hmem hjr
    rw [hq.colPotential, if_neg hjt]
    exact e.vacant j hj (hq.rowOf ▸ hjr)
  · -- The rows of the tree are matched, or it is the new one.
    intro r hr hri
    have hrt : r ∉ q.visited.map (fun j => p.rowOf[j]) := by
      intro hmem
      rcases List.mem_map.mp hmem with ⟨x, hx, rfl⟩
      exact (h.row_mem hs (hq.rowOf ▸ ht.occupied x hx)).elim hr hri
    rw [hq.rowPotential, if_neg hrt]
    exact e.untouched r hr hri
  · intro x hx j hj hjt
    rw [hq.slack, if_neg hjt, hq.reduced_of_mem hx, if_neg hjt]
    exact sub_le_sub_right (e.seen_le hq hx hj hjt) _
  · -- The new row rises by what the slacks outside fall.
    intro j hj hjt
    rw [hq.slack, if_neg hjt, hq.rowPotential, if_pos hirow]
    rcases e.seen_eq hq hj hjt with hcap | ⟨x, hx, hlink, heq⟩
    · left
      simp only [Arithmetic.ofOrder] at hcap ⊢
      linarith
    · right
      refine ⟨x, hx, hlink, ?_⟩
      rw [hq.reduced_of_mem hx, if_neg hjt]
      exact congrArg (· - Probe.price .ofOrder cost p q) heq

omit [IsStrictOrderedRing α] in
/-- The way back of a search ends, and stays among the columns that were reached. -/
theorem trail_exists (e : Explored cost reach R i p) (h : Tree s i p) :
    ∃ columns, trail p.cameFrom N p.column = some columns ∧ columns ⊆ p.column :: p.visited := by
  refine Search.trail_exists (p.column :: p.visited) ?_ N p.column p.visited
    (List.suffix_refl _) h.length_visited_le
  intro j earlier hsuf hj
  rcases e.link j earlier hsuf hj with ⟨x, hx, rfl, _⟩
  exact hx

omit [IsStrictOrderedRing α] in
/-- The cells along the way back are tight. -/
theorem link_tight (e : Explored cost reach R i p) {j : Slot N}
    (hj : j ∈ p.column :: p.visited) (hj0 : j ≠ 0) :
    Probe.reduced .ofOrder cost p.toState p.rowOf[p.cameFrom[j]] j = 0 := by
  rcases List.append_of_mem hj with ⟨later, earlier, heq⟩
  rcases e.link j earlier (heq ▸ List.suffix_append _ _) hj0 with ⟨x, _, rfl, htight⟩
  exact htight

omit [IsStrictOrderedRing α] in
/-- Handing rows back along tight cells keeps the balance. -/
theorem balanced {columns : List (Slot N)} (e : Explored cost reach R i p) (h : Tree s i p)
    (hi0 : i ≠ 0) (hdone : p.done = true) (hc : trail p.cameFrom N p.column = some columns)
    (hsub : columns ⊆ p.column :: p.visited)
    (hsettled : Settled { p.toState with rowOf := flip p.cameFrom columns p.rowOf } (insert i R)) :
    Balanced cost { p.toState with rowOf := flip p.cameFrom columns p.rowOf } (insert i R) := by
  have hne := h.visited_ne_nil_of_done hi0 hdone
  refine { hsettled with
    feasible := fun r hr j hj => e.feasible r ?_ j hj
    tight := fun j r hj hjr hr => ?_
    nonpos := e.nonpos
    vacant := fun j hj hjr => e.vacant j hj ?_
    untouched := fun r hr => e.untouched r ?_ ?_ }
  · rcases Finset.mem_insert.mp hr with rfl | hr
    · exact Or.inr ⟨rfl, hne⟩
    · exact Or.inl hr
  · -- A row that was handed on stands where its link was tight.
    by_cases hjc : j ∈ columns
    · rw [(flip_get hc _ j).1 hjc] at hjr
      exact hjr ▸ e.link_tight (hsub hjc) hj
    · rw [(flip_get hc _ j).2 hjc] at hjr
      exact e.tight j r hj hjr hr
  · -- A column that was handed a row has one, so an empty column was empty before.
    by_cases hjc : j ∈ columns
    · rw [(flip_get hc _ j).1 hjc] at hjr
      exact absurd hjr (h.linked j _ rfl)
    · rw [(flip_get hc _ j).2 hjc] at hjr
      exact hjr
  · exact fun hmem => hr (Finset.mem_insert_of_mem hmem)
  · exact fun heq => hr (heq ▸ Finset.mem_insert_self _ _)

end Explored

end Search

end Roster
