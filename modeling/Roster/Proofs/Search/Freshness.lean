import Roster.Proofs.Search.Balance

/-!
# Links of Earlier Rows

Nothing resets the links between two rows. A search writes the link of a column when it improves
the slack of that column, and a column that it reaches without having improved it is left along
whatever link an earlier row wrote. Such a link says nothing about this search, and it is all
that can keep a way back from ending.

A search is therefore watched here with one thing more than it keeps itself, the columns that it
has improved. Whatever its arithmetic does, the link of an improved column leads into the tree,
to a column that was reached before it. So a way back along improved columns gets nearer to the
virtual column with every link, and it ends.

There are two ways to know that all reached columns are improved. A row that sees every column
below the cap when it comes in improves them all with its first step. And in exact arithmetic a
column that is not improved is never the nearest, as long as the costs are below the cap. In
rounded arithmetic neither has to be so: a slack that was never improved, less some shifts, may
come out equal to one that was, and the tie may go to the wrong one.

## Main definitions

* `Probe.improvedNow`: The columns that a step improves.
* `Probe.Moment`: A moment of a search, with the columns improved until then.
* `Traced`: What links of improved columns mean.
* `LinksAfresh`: A search that reaches improved columns only.
* `SeesAll`: A row that sees every column below the cap as it comes in.

## Theorems

* `Probe.Moment.traced`: Links of improved columns lead to columns reached before.
* `LinksAfresh.exists_trail`: The way back of such a search ends.
* `SeesAll.linksAfresh`, `Balanced.linksAfresh`: Two ways to know it.
* `exists_inserted_of_linksAfresh`: If every row links afresh, every row comes in.
-/

namespace Roster

namespace Search

variable {α : Type} {N : Nat} {A : Arithmetic α} {cost : Slot N → Slot N → α} {reach : α}
  {s : State α N} {R : Finset (Slot N)} {i : Slot N} {p : Probe α N}
  {improved : Finset (Slot N)}

namespace Probe

/-- The columns whose slack a step from `p` improves. -/
def improvedNow (A : Arithmetic α) (cost : Slot N → Slot N → α) (p : Probe α N) :
    Finset (Slot N) :=
  Finset.univ.filter fun j => p.enter.improves A cost j = true

theorem mem_improvedNow {j : Slot N} :
    j ∈ p.improvedNow A cost ↔ p.enter.improves A cost j = true := by
  rw [improvedNow, Finset.mem_filter]
  exact and_iff_right (Finset.mem_univ j)

/-- A moment of the search that begins with `first`: what it has come to, and the columns that
    it has improved until then. -/
inductive Moment (A : Arithmetic α) (cost : Slot N → Slot N → α) (first : Probe α N) :
    Probe α N → Finset (Slot N) → Prop
  | outset : Moment A cost first first ∅
  | next {p : Probe α N} {improved : Finset (Slot N)} (h : Moment A cost first p improved)
      (hdone : p.done = false) :
      Moment A cost first (p.step A cost) (improved ∪ p.improvedNow A cost)

/-- Where a search ends is one of its moments. -/
theorem Moment.run {first : Probe α N} (hfirst : first.done = false) (fuel : Nat) :
    ∃ improved, Moment A cost first (first.run A cost fuel) improved :=
  run_keeps (P := fun p => ∃ improved, Moment A cost first p improved)
    (fun _ hp hdone => hp.elim fun _ h => ⟨_, h.next hdone⟩) fuel first ⟨∅, .outset⟩ hfirst

theorem Moment.tree (hs : Settled s R) (hi : i ∉ R) (hi0 : i ≠ 0)
    (h : Moment A cost (start s i reach) p improved) : Tree s i p := by
  rcases hs.placed.exists_vacant hi hi0 with ⟨y, hy, hvacant⟩
  induction h with
  | outset => exact Tree.start hi0 hs.linked
  | next _ hdone ih => exact ih.of_reaches hdone (ih.reaches hdone hy hvacant)

/-- Each moment but the first is a step behind another. -/
theorem Moment.reaches (hs : Settled s R) (hi : i ∉ R) (hi0 : i ≠ 0)
    (h : Moment A cost (start s i reach) p improved) (hdone : p.done = false) :
    Reaches A cost p (p.step A cost) := by
  rcases hs.placed.exists_vacant hi hi0 with ⟨y, hy, hvacant⟩
  exact (h.tree hs hi hi0).reaches hdone hy hvacant

/-- The virtual column is in the tree from the first step on. -/
theorem Moment.root_mem (hs : Settled s R) (hi : i ∉ R) (hi0 : i ≠ 0)
    (h : Moment A cost (start s i reach) p improved) (hdone : p.done = false) :
    0 ∈ (p.step A cost).visited := by
  have htree := (h.next hdone).tree hs hi hi0
  have hq := h.reaches hs hi hi0 hdone
  exact htree.zero_mem_of_ne_nil (hq.visited ▸ List.cons_ne_nil _ _)

/-- And so is the new row, which stands there. -/
theorem Moment.newRow_mem (hs : Settled s R) (hi : i ∉ R) (hi0 : i ≠ 0)
    (h : Moment A cost (start s i reach) p improved) (hdone : p.done = false) :
    i ∈ (p.step A cost).visited.map (fun j => p.rowOf[j]) :=
  List.mem_map.mpr ⟨0, h.root_mem hs hi hi0 hdone, (h.tree hs hi hi0).rowOf_zero⟩

end Probe

/-! ### The way back along improved columns -/

/-- What the links of improved columns mean at a moment of a search. -/
structure Traced (p : Probe α N) (improved : Finset (Slot N)) : Prop where
  /-- They lead into the tree. -/
  inward : ∀ j ∈ improved, p.cameFrom[j] ∈ p.visited
  /-- From a reached column they lead to a column reached before it. -/
  backward : ∀ (j : Slot N) (earlier : List (Slot N)), j :: earlier <:+ p.column :: p.visited →
    j ∈ improved → p.cameFrom[j] ∈ earlier

theorem Traced.of_reaches {q : Probe α N} (h : Traced p improved)
    (hq : Probe.Reaches A cost p q) : Traced q (improved ∪ p.improvedNow A cost) := by
  have hinward : ∀ j ∈ improved ∪ p.improvedNow A cost, q.cameFrom[j] ∈ q.visited := by
    intro j hj
    rw [hq.cameFrom, hq.visited]
    by_cases himp : p.enter.improves A cost j = true
    · rw [if_pos himp]
      exact List.mem_cons_self
    · rw [if_neg himp]
      rcases Finset.mem_union.mp hj with hj | hj
      · exact List.mem_cons_of_mem _ (h.inward j hj)
      · exact absurd (Probe.mem_improvedNow.mp hj) himp
  refine ⟨hinward, fun j earlier hsuf hj => ?_⟩
  rcases List.suffix_cons_iff.mp hsuf with heq | hold
  · -- All columns of the tree were reached before the new one.
    rcases List.cons.inj heq with ⟨rfl, rfl⟩
    exact hinward _ hj
  · -- A column of the tree is not improved again, and keeps its link.
    have hjt : j ∈ q.visited := hold.subset List.mem_cons_self
    rw [hq.cameFrom_of_mem hjt]
    refine h.backward j earlier (hq.visited ▸ hold) ?_
    rcases Finset.mem_union.mp hj with hj | hj
    · exact hj
    · exact absurd (hq.visited ▸ hjt) (Probe.improves_iff.mp (Probe.mem_improvedNow.mp hj)).2.1

theorem Probe.Moment.traced (hs : Settled s R) (hi : i ∉ R) (hi0 : i ≠ 0)
    (h : Probe.Moment A cost (Probe.start s i reach) p improved) : Traced p improved := by
  induction h with
  | outset =>
      exact ⟨fun j hj => absurd hj (Finset.notMem_empty j),
        fun j _ _ hj => absurd hj (Finset.notMem_empty j)⟩
  | next hmoment hdone ih => exact ih.of_reaches (hmoment.reaches hs hi hi0 hdone)

/-- The search for row `i` improves every column that it reaches, so its way back follows no
    link that an earlier row has left. -/
inductive LinksAfresh (A : Arithmetic α) (cost : Slot N → Slot N → α) (reach : α)
    (s : State α N) (i : Slot N) : Prop
  | intro (improved : Finset (Slot N))
    (moment : Probe.Moment A cost (Probe.start s i reach) (insertRow A cost reach s i).probe
      improved)
    (reached : ∀ j ∈ (insertRow A cost reach s i).probe.column ::
      (insertRow A cost reach s i).probe.visited, j ≠ 0 → j ∈ improved) :
    LinksAfresh A cost reach s i

/-- The way back of a search that links afresh ends, and passes only what the search reached. -/
theorem LinksAfresh.exists_trail (hs : Settled s R) (hi : i ∉ R) (hi0 : i ≠ 0)
    (h : LinksAfresh A cost reach s i) :
    ∃ columns, trail (insertRow A cost reach s i).probe.cameFrom N
        (insertRow A cost reach s i).probe.column = some columns ∧
      columns ⊆ (insertRow A cost reach s i).probe.column ::
        (insertRow A cost reach s i).probe.visited := by
  rcases h with ⟨improved, hmoment, himp⟩
  have htraced := hmoment.traced hs hi hi0
  have htree := hmoment.tree hs hi hi0
  -- Each link leaves fewer columns that were reached before, so they run out.
  refine trail_exists _ (fun j earlier hsuf hj => ?_) N _ _ (List.suffix_refl _)
    htree.length_visited_le
  exact htraced.backward j earlier hsuf (himp j (hsuf.subset List.mem_cons_self) hj)

/-- If every row links afresh where it comes in, every row comes in. -/
theorem exists_inserted_of_linksAfresh
    (h : ∀ k (hk : k < N) before,
      inserted A cost reach (State.start A N) ((rows N).take k) = some before →
        LinksAfresh A cost reach before (Fin.succ ⟨k, hk⟩)) (k : Nat) (hk : k ≤ N) :
    ∃ s, inserted A cost reach (State.start A N) ((rows N).take k) = some s ∧
      Settled s ((rows N).take k).toFinset := by
  induction k with
  | zero => exact ⟨State.start A N, rfl, Settled.start A⟩
  | succ k ih =>
      rcases ih (Nat.le_of_succ_le hk) with ⟨before, hbefore, hs⟩
      have hi := succ_not_mem_take hk
      have hi0 := Fin.succ_ne_zero (⟨k, hk⟩ : Fin N)
      -- A row that links afresh has a way back, and that is all it needs to come in.
      rcases (h k hk before hbefore).exists_trail hs hi hi0 with ⟨columns, hc, _⟩
      have hnext := congrArg (Option.map fun columns =>
        { (insertRow A cost reach before (Fin.succ ⟨k, hk⟩)).probe.toState with
          rowOf := flip (insertRow A cost reach before (Fin.succ ⟨k, hk⟩)).probe.cameFrom columns
            (insertRow A cost reach before (Fin.succ ⟨k, hk⟩)).probe.rowOf }) hc
      refine ⟨_, ?_, take_succ_toFinset hk ▸ hs.insertRow hi hi0 hnext⟩
      rw [List.take_add_one, rows_get hk, Option.toList_some, inserted_concat, hbefore,
        Option.bind_some]
      exact hnext

/-! ### Rows that see every column -/

/-- Row `i` sees every column below the cap when it comes in. -/
def SeesAll (A : Arithmetic α) (cost : Slot N → Slot N → α) (reach : α) (s : State α N)
    (i : Slot N) : Prop :=
  ∀ j : Fin N, A.less (Probe.reduced A cost s i j.succ) reach = true

instance : Decidable (SeesAll A cost reach s i) :=
  inferInstanceAs (Decidable (∀ j : Fin N, A.less (Probe.reduced A cost s i j.succ) reach = true))

/-- Such a row improves all columns with its first step. -/
theorem SeesAll.improves (h : SeesAll A cost reach s i) {j : Slot N} (hj : j ≠ 0) :
    (Probe.start s i reach).enter.improves A cost j = true := by
  rw [Probe.improves_iff]
  refine ⟨hj, fun hmem => hj (List.mem_singleton.mp hmem), ?_⟩
  have hrow : (Probe.start s i reach).rowOf[(Probe.start s i reach).column] = i :=
    (Probe.start_rowOf 0).trans (if_pos rfl)
  have hslack : (Probe.start s i reach).slack[j] = reach := replicate_get reach j
  rw [hrow, hslack, ← Fin.succ_pred j hj]
  exact h (j.pred hj)

/-- What is improved stays improved, so its search links afresh. -/
theorem SeesAll.linksAfresh (hi0 : i ≠ 0) (h : SeesAll A cost reach s i) :
    LinksAfresh A cost reach s i := by
  have hopen : (Probe.start s i reach).done = false := Probe.start_not_done hi0
  -- The first step improves all columns, and later steps take none of them out again.
  have hall := Probe.insertRow_keeps A cost reach
    (P := fun p => ∃ improved, Probe.Moment A cost (Probe.start s i reach) p improved ∧
      ∀ j, j ≠ 0 → j ∈ improved)
    ⟨_, .next .outset hopen, fun j hj =>
      Finset.mem_union_right _ (Probe.mem_improvedNow.mpr (h.improves hj))⟩
    fun p ⟨improved, hmoment, himp⟩ hdone =>
      ⟨_, hmoment.next hdone, fun j hj => Finset.mem_union_left _ (himp j hj)⟩
  rcases hall with ⟨improved, hmoment, himp⟩
  exact ⟨improved, hmoment, fun j _ hj => himp j hj⟩

/-! ### Exact arithmetic -/

section Exact

variable [CommRing α] [LinearOrder α] [IsStrictOrderedRing α] {y : Slot N}

/-- Every moment of a search that can go to column `y` is one that can. -/
theorem Probe.Moment.underway (b : Balanced cost s R) (hi : i ∉ R) (hi0 : i ≠ 0) (hy : y ≠ 0)
    (hvacant : s.rowOf[y] = 0) (hcost : cost i y < reach)
    (h : Probe.Moment .ofOrder cost (Probe.start s i reach) p improved) :
    Underway cost reach s R i y p := by
  induction h with
  | outset => exact Underway.start b hi hi0 hy hvacant hcost
  | next _ hdone ih => exact ih.step hdone

/-- The slack of a column that was never improved is the cap less what the new row has gathered. -/
theorem Probe.Moment.slack_add (b : Balanced cost s R) (hi : i ∉ R) (hi0 : i ≠ 0)
    (h : Probe.Moment .ofOrder cost (Probe.start s i reach) p improved) {j : Slot N}
    (hout : j ∉ p.visited) (hnot : j ∉ improved) : p.slack[j] + p.rowPotential[i] = reach := by
  induction h with
  | outset =>
      have hu : (Probe.start s i reach).rowPotential[i] = 0 := b.untouched i hi
      have hslack : (Probe.start s i reach).slack[j] = reach := replicate_get reach j
      rw [hu, hslack, add_zero]
  | @next p improved hmoment hdone ih =>
      have hq := hmoment.reaches b.toSettled hi hi0 hdone
      have hirow := hmoment.newRow_mem b.toSettled hi hi0 hdone
      rw [Finset.mem_union, not_or, Probe.mem_improvedNow] at hnot
      -- A step takes from this slack what it gives to the new row, so their sum stays.
      have hold := ih (fun hmem => hout (hq.visited ▸ List.mem_cons_of_mem _ hmem)) hnot.1
      rw [hq.slack, if_neg hout, hq.rowPotential, if_pos hirow, Probe.seen_get, if_neg hnot.2]
      simp only [Arithmetic.ofOrder]
      linarith

/-- In exact arithmetic a search whose row has no cost beyond the cap reaches improved columns
    only. -/
theorem Probe.Moment.reached_mem (b : Balanced cost s R) (hi : i ∉ R) (hi0 : i ≠ 0)
    (hcost : ∀ j, j ≠ 0 → cost i j < reach)
    (h : Probe.Moment .ofOrder cost (Probe.start s i reach) p improved) :
    ∀ j ∈ p.column :: p.visited, j ≠ 0 → j ∈ improved := by
  rcases b.placed.exists_vacant hi hi0 with ⟨y, hy, hvacant⟩
  induction h with
  | outset =>
      intro j hj hj0
      exact absurd (List.mem_singleton.mp hj) hj0
  | @next p improved hmoment hdone ih =>
      intro j hj hj0
      have w := hmoment.underway b hi hi0 hy hvacant (hcost y hy)
      have hq := w.reaches hdone
      rw [hq.visited] at hj
      rcases List.mem_cons.mp hj with rfl | hj
      · -- The nearest column lies below the cap, and one that was never improved does not.
        by_contra hnot
        rw [Finset.mem_union, not_or, Probe.mem_improvedNow] at hnot
        have hlt := w.explored.price_lt (w.tree_step hdone) hq hy w.rowOf_column (w.outside hdone)
          w.below
        have hcap := hmoment.slack_add b hi hi0
          (fun hmem => hq.column_fresh (List.mem_cons_of_mem _ hmem)) hnot.1
        rw [Probe.price, Probe.seen_get, if_neg hnot.2, hcap] at hlt
        exact absurd hlt (lt_irrefl reach)
      · exact Finset.mem_union_left _ (ih j hj hj0)

theorem Balanced.linksAfresh (b : Balanced cost s R) (hi : i ∉ R) (hi0 : i ≠ 0)
    (hcost : ∀ j, j ≠ 0 → cost i j < reach) : LinksAfresh .ofOrder cost reach s i := by
  have hopen : (Probe.start s i reach).done = false := Probe.start_not_done hi0
  rcases Probe.Moment.run hopen (N + 1) with ⟨improved, hmoment⟩
  exact ⟨improved, hmoment, hmoment.reached_mem b hi hi0 hcost⟩

end Exact

end Search

end Roster
