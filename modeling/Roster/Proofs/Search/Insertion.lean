import Mathlib.Data.Finset.Card
import Mathlib.Data.Fintype.Basic
import Roster.Proofs.Search.Tree

/-!
# Inserting Rows

Which rows are matched after each insertion, whatever the arithmetic does.

`Placed rowOf hole R` says that the rows of `R`, and no others, stand in exactly one slot
each, where one slot does not count. Between two insertions the slot that does not count
is the virtual column. While rows are handed back along a trail it is the column that is
written next: the row it held has been copied to the column before it, so it is the hole
that moves, and every single write keeps the rest. The hole starts at a column without a
row and ends at the virtual column, which is how the new row comes in.

Rows are inserted in turn as long as each way back ends. `inserted` is that as one
function of a state and some rows; stages and the final state are read off it, so an
invariant needs one proof for one row.

## Main definitions

* `Placed`: Which rows stand somewhere, each in one slot.
* `Settled`: What is true between two insertions, in any arithmetic.
* `inserted`: The state after some rows are inserted in turn.
* `Fresh`: Rows that are still to come.

## Theorems

* `Placed.exists_vacant`: With a row left over, some column has no row.
* `Placed.flip`: Handing rows back moves the hole to the virtual column.
* `Settled.insertRow`: A row comes in and no other goes out.
* `insertRows_get`: The stages are insertions in the states before them.
* `inserted_keeps`, `inserted_exists`: Invariants for some rows from those for one row.
* `Settled.of_inserted`: What is true in any arithmetic after some rows.
-/

namespace Roster

namespace Search

variable {α : Type} {N : Nat} {A : Arithmetic α} {cost : Slot N → Slot N → α} {reach : α}

/-- The rows of `R`, and no others, stand in exactly one slot each other than `hole`. -/
structure Placed (rowOf : Vector (Slot N) (N + 1)) (hole : Slot N) (R : Finset (Slot N)) :
    Prop where
  once : ∀ j k : Slot N, j ≠ hole → k ≠ hole → rowOf[j] = rowOf[k] → rowOf[j] ≠ 0 → j = k
  mem_iff : ∀ r, r ∈ R ↔ r ≠ 0 ∧ ∃ j : Slot N, j ≠ hole ∧ rowOf[j] = r

namespace Placed

variable {rowOf : Vector (Slot N) (N + 1)} {hole : Slot N} {R : Finset (Slot N)}

theorem rowOf_mem (h : Placed rowOf hole R) {j : Slot N} (hj : j ≠ hole) (hrow : rowOf[j] ≠ 0) :
    rowOf[j] ∈ R :=
  (h.mem_iff _).mpr ⟨hrow, j, hj, rfl⟩

/-- Apart from the new hole, the slots hold what they held, with the old and the new hole
    swapped. -/
theorem put_get_swap {k j : Slot N} (hj : j ≠ k) :
    (put rowOf hole rowOf[k])[j] = rowOf[Equiv.swap hole k j] := by
  rw [put_get]
  by_cases hjh : j = hole
  · rw [if_pos hjh.symm, hjh, Equiv.swap_apply_left]
  · rw [if_neg (Ne.symm hjh), Equiv.swap_apply_of_ne_of_ne hjh hj]

/-- Copying a row into the hole moves the hole to where the row was. -/
theorem set (h : Placed rowOf hole R) {k : Slot N} (hk : k ≠ hole) :
    Placed (put rowOf hole rowOf[k]) k R := by
  have hold : ∀ j, j ≠ k → Equiv.swap hole k j ≠ hole := fun j hj heq =>
    hj ((Equiv.swap hole k).injective (heq.trans (Equiv.swap_apply_right hole k).symm))
  constructor
  · intro a b ha hb heq hne
    rw [put_get_swap ha] at heq hne
    rw [put_get_swap hb] at heq
    exact (Equiv.swap hole k).injective (h.once _ _ (hold a ha) (hold b hb) heq hne)
  · -- The row of the new hole is now where the old one was.
    intro r
    rw [h.mem_iff]
    constructor
    · rintro ⟨hr, j, hj, hjr⟩
      by_cases hjk : j = k
      · refine ⟨hr, hole, Ne.symm hk, ?_⟩
        rw [put_get, if_pos rfl, ← hjk]
        exact hjr
      · refine ⟨hr, j, hjk, ?_⟩
        rw [put_get, if_neg (Ne.symm hj)]
        exact hjr
    · rintro ⟨hr, j, hj, hjr⟩
      exact ⟨hr, _, hold j hj, (put_get_swap hj).symm.trans hjr⟩

/-- Handing rows back along a trail moves the hole from its start to the virtual column. -/
theorem flip {cameFrom : Vector (Slot N) (N + 1)} {fuel : Nat} {columns : List (Slot N)}
    (h : Placed rowOf hole R) (ht : trail cameFrom fuel hole = some columns) :
    Placed (Search.flip cameFrom columns rowOf) 0 R := by
  induction columns generalizing fuel hole rowOf with
  | nil =>
      by_cases h0 : hole = 0
      · exact h0 ▸ h
      · rcases trail_eq_cons ht h0 with ⟨_, _, _, hc, _⟩
        exact absurd hc (List.cons_ne_nil _ _).symm
  | cons x rest ih =>
      -- Each write moves the hole to the next column of the trail.
      have hne := trail_ne_start ht List.mem_cons_self
      rcases trail_cons ht with ⟨rfl, _, before, hrest⟩
      exact ih (h.set hne) hrest

/-- The slots that count and hold a row are as many as the rows. -/
theorem card_eq (h : Placed rowOf hole R) :
    (Finset.univ.filter fun j : Slot N => j ≠ hole ∧ rowOf[j] ≠ 0).card = R.card := by
  refine Finset.card_bij (fun j _ => rowOf[j]) ?_ ?_ ?_
  · intro j hj
    have hj := (Finset.mem_filter.mp hj).2
    exact h.rowOf_mem hj.1 hj.2
  · intro j hj k hk heq
    have hj := (Finset.mem_filter.mp hj).2
    have hk := (Finset.mem_filter.mp hk).2
    exact h.once j k hj.1 hk.1 heq hj.2
  · intro r hr
    rcases (h.mem_iff r).mp hr with ⟨hr0, j, hj, rfl⟩
    exact ⟨j, Finset.mem_filter.mpr ⟨Finset.mem_univ _, hj, hr0⟩, rfl⟩

theorem card_lt (h : Placed rowOf hole R) {i : Slot N} (hi : i ∉ R) (hi0 : i ≠ 0) :
    R.card < N := by
  have hsub : R ⊂ Finset.univ.erase 0 := by
    refine Finset.ssubset_iff_subset_ne.mpr ⟨fun r hr => ?_, fun heq => hi ?_⟩
    · exact Finset.mem_erase.mpr ⟨((h.mem_iff r).mp hr).1, Finset.mem_univ _⟩
    · exact heq ▸ Finset.mem_erase.mpr ⟨hi0, Finset.mem_univ _⟩
  have hlt := Finset.card_lt_card hsub
  rw [Finset.card_erase_of_mem (Finset.mem_univ _), Finset.card_univ, Fintype.card_fin] at hlt
  exact hlt

/-- With a row left over, some column has no row. -/
theorem exists_vacant (h : Placed rowOf 0 R) {i : Slot N} (hi : i ∉ R) (hi0 : i ≠ 0) :
    ∃ y : Slot N, y ≠ 0 ∧ rowOf[y] = 0 := by
  -- Otherwise all `N` columns would hold distinct rows, of which there are fewer.
  by_contra hnone
  have hall : ∀ j : Slot N, j ≠ 0 → rowOf[j] ≠ 0 := fun j hj h0 => hnone ⟨j, hj, h0⟩
  have hfilter : (Finset.univ.filter fun j : Slot N => j ≠ 0 ∧ rowOf[j] ≠ 0)
      = Finset.univ.erase 0 := by
    ext j
    simp only [Finset.mem_filter, Finset.mem_univ, true_and, Finset.mem_erase, and_true]
    exact ⟨And.left, fun hj => ⟨hj, hall j hj⟩⟩
  have hcard := h.card_eq
  rw [hfilter, Finset.card_erase_of_mem (Finset.mem_univ _), Finset.card_univ,
    Fintype.card_fin] at hcard
  have := h.card_lt hi hi0
  omega

end Placed

/-- What is true between two insertions, in any arithmetic: the rows of `R` are matched, and
    every link that leads to a column leads to one that holds a row. -/
structure Settled (s : State α N) (R : Finset (Slot N)) : Prop where
  placed : Placed s.rowOf 0 R
  linked : ∀ j k : Slot N, s.cameFrom[j] = k → k ≠ 0 → s.rowOf[k] ≠ 0

theorem Settled.start (A : Arithmetic α) : Settled (State.start A N) ∅ := by
  have hrow : ∀ j : Slot N, (State.start A N).rowOf[j] = 0 := fun j => by
    simp only [State.start, replicate_get]
  refine ⟨⟨fun j k _ _ _ hne => absurd (hrow j) hne, fun r => ?_⟩, fun j k hjk hk => ?_⟩
  · refine ⟨fun hr => absurd hr (Finset.notMem_empty r), ?_⟩
    rintro ⟨hr, j, _, hjr⟩
    exact absurd (hjr.symm.trans (hrow j)) hr
  · refine absurd ?_ hk
    rw [← hjk]
    simp only [State.start, replicate_get]

namespace Tree

variable {s : State α N} {R : Finset (Slot N)} {i : Slot N} {p : Probe α N}

/-- While the new row stands in the virtual column, every row stands in one slot. -/
theorem once (h : Tree s i p) (hs : Placed s.rowOf 0 R) (hi : i ∉ R) {j k : Slot N}
    (heq : p.rowOf[j] = p.rowOf[k]) (hne : p.rowOf[j] ≠ 0) : j = k := by
  by_cases hj : j = 0
  · by_cases hk : k = 0
    · rw [hj, hk]
    · -- Column `k` would hold the new row, which is not among the matched ones.
      rw [hj, h.rowOf_zero, h.rowOf_of_ne hk] at heq
      rw [hj, h.rowOf_zero] at hne
      exact absurd (heq ▸ hs.rowOf_mem hk (heq ▸ hne)) hi
  · rw [h.rowOf_of_ne hj] at heq hne
    by_cases hk : k = 0
    · rw [hk, h.rowOf_zero] at heq
      exact absurd (heq ▸ hs.rowOf_mem hj hne) hi
    · rw [h.rowOf_of_ne hk] at heq
      exact hs.once j k hj hk heq hne

/-- The hole may be any column without a row. -/
theorem placed (h : Tree s i p) (hs : Placed s.rowOf 0 R) (hi : i ∉ R) (hi0 : i ≠ 0)
    {hole : Slot N} (hvacant : p.rowOf[hole] = 0) : Placed p.rowOf hole (insert i R) := by
  refine ⟨fun j k _ _ heq hne => h.once hs hi heq hne, fun r => ?_⟩
  -- The new row stands in the virtual column, which counts again, and the hole has no row.
  rw [Finset.mem_insert]
  constructor
  · rintro (rfl | hr)
    · refine ⟨hi0, 0, fun h0 => ?_, h.rowOf_zero⟩
      subst h0
      exact hi0 (h.rowOf_zero.symm.trans hvacant)
    · rcases (hs.mem_iff r).mp hr with ⟨hr0, j, hj, hjr⟩
      have hrow : p.rowOf[j] = r := (h.rowOf_of_ne hj).trans hjr
      refine ⟨hr0, j, fun hjc => ?_, hrow⟩
      subst hjc
      exact hr0 (hrow.symm.trans hvacant)
  · rintro ⟨hr0, j, _, hjr⟩
    by_cases hj : j = 0
    · rw [hj, h.rowOf_zero] at hjr
      exact Or.inl hjr.symm
    · rw [h.rowOf_of_ne hj] at hjr
      exact Or.inr ((hs.mem_iff r).mpr ⟨hr0, j, hj, hjr⟩)

/-- The tree of the search that `insertRow` makes, where it has ended. -/
theorem insertRow (A : Arithmetic α) (cost : Slot N → Slot N → α) (reach : α)
    (hs : Settled s R) (hi : i ∉ R) (hi0 : i ≠ 0) :
    Tree s i (insertRow A cost reach s i).probe ∧
      (insertRow A cost reach s i).probe.done = true := by
  rcases hs.placed.exists_vacant hi hi0 with ⟨y, hy, hvacant⟩
  have hstart : Tree s i (Probe.start s i reach) := Tree.start hi0 hs.linked
  have hopen : (Probe.start s i reach).done = false := Probe.start_not_done hi0
  constructor
  · exact Probe.run_keeps (fun p hp hdone => hp.of_reaches hdone (hp.reaches hdone hy hvacant))
      (N + 1) _ hstart hopen
  · exact Tree.run_done hy hvacant (N + 1) _ hstart hopen (by omega)

end Tree

/-- The state after an insertion, if there is one, hands the rows back along a trail. -/
theorem insertRow_state {s next : State α N} {i : Slot N}
    (h : (insertRow A cost reach s i).state = some next) :
    ∃ columns, trail (insertRow A cost reach s i).probe.cameFrom N
        (insertRow A cost reach s i).probe.column = some columns ∧
      next = { (insertRow A cost reach s i).probe.toState with
        rowOf := flip (insertRow A cost reach s i).probe.cameFrom columns
          (insertRow A cost reach s i).probe.rowOf } := by
  rcases Option.map_eq_some_iff.mp h with ⟨columns, hc, heq⟩
  exact ⟨columns, hc, heq.symm⟩

/-- A row comes in, and no other goes out. -/
theorem Settled.insertRow {s next : State α N} {R : Finset (Slot N)} {i : Slot N}
    (hs : Settled s R) (hi : i ∉ R) (hi0 : i ≠ 0)
    (h : (insertRow A cost reach s i).state = some next) : Settled next (insert i R) := by
  rcases Tree.insertRow A cost reach hs hi hi0 with ⟨htree, hdone⟩
  rcases insertRow_state h with ⟨columns, hc, rfl⟩
  refine ⟨(htree.placed hs.placed hi hi0 (Probe.done_iff.mp hdone)).flip hc, fun j k hjk _ => ?_⟩
  by_cases hk : k ∈ columns
  · rw [(flip_get hc _ k).1 hk]
    exact htree.linked k _ rfl
  · rw [(flip_get hc _ k).2 hk]
    exact htree.linked j k hjk

/-! ### All rows in turn -/

/-- The state after some rows are inserted in turn; none if a way back never ends. -/
def inserted (A : Arithmetic α) (cost : Slot N → Slot N → α) (reach : α) (s : State α N) :
    List (Slot N) → Option (State α N)
  | [] => some s
  | i :: rest => (insertRow A cost reach s i).state.bind fun next =>
      inserted A cost reach next rest

/-- The stages are insertions in the states before them. -/
theorem insertRows_get (s : State α N) (rows : List (Slot N)) (k : Nat) :
    (insertRows A cost reach s rows)[k]? =
      (inserted A cost reach s (rows.take k)).bind fun before =>
        rows[k]?.map fun i => insertRow A cost reach before i := by
  induction rows generalizing s k with
  | nil =>
      simp only [insertRows, List.getElem?_nil, List.take_nil, inserted, Option.bind_some,
        Option.map_none]
  | cons i rest ih =>
      cases k with
      | zero =>
          simp only [insertRows, List.getElem?_cons_zero, List.take_zero, inserted,
            Option.bind_some, Option.map_some]
      | succ k =>
          rw [insertRows, List.getElem?_cons_succ, List.take_succ_cons, inserted,
            List.getElem?_cons_succ]
          cases (insertRow A cost reach s i).state with
          | none => rfl
          | some next => exact ih next k

theorem inserted_concat (A : Arithmetic α) (cost : Slot N → Slot N → α) (reach : α)
    (rows : List (Slot N)) (i : Slot N) (s : State α N) :
    inserted A cost reach s (rows ++ [i]) =
      (inserted A cost reach s rows).bind fun t => (insertRow A cost reach t i).state := by
  induction rows generalizing s with
  | nil =>
      rw [List.nil_append, inserted, inserted, Option.bind_some]
      cases (insertRow A cost reach s i).state with
      | none => rfl
      | some next => rfl
  | cons k rest ih =>
      rw [List.cons_append, inserted, inserted]
      cases (insertRow A cost reach s k).state with
      | none => rfl
      | some next => exact ih next

/-- The state after some rows is that of the last of them. -/
theorem inserted_eq_getLast (A : Arithmetic α) (cost : Slot N → Slot N → α) (reach : α)
    (rows : List (Slot N)) (s : State α N) : inserted A cost reach s rows =
      (insertRows A cost reach s rows).getLast?.elim (some s) Stage.state := by
  induction rows generalizing s with
  | nil => rfl
  | cons i rest ih =>
      rw [insertRows, inserted]
      cases hnext : (insertRow A cost reach s i).state with
      | none => exact hnext.symm
      | some next =>
          rw [Option.bind_some, ih next, List.getLast?_cons]
          cases (insertRows A cost reach next rest).getLast? with
          | none => exact hnext.symm
          | some stage => rfl

theorem final_eq (A : Arithmetic α) (cost : Slot N → Slot N → α) (reach : α) :
    final A N cost reach = inserted A cost reach (State.start A N) (rows N) := by
  rw [inserted_eq_getLast, final, stages]
  cases (insertRows A cost reach (State.start A N) (rows N)).getLast? with
  | none => rfl
  | some stage => rfl

/-- Some rows that are still to come when those of `R` are matched. -/
structure Fresh (rows : List (Slot N)) (R : Finset (Slot N)) : Prop where
  nodup : rows.Nodup
  not_mem : ∀ i ∈ rows, i ∉ R
  ne_zero : ∀ i ∈ rows, i ≠ 0

theorem Fresh.tail {i : Slot N} {rest : List (Slot N)} {R : Finset (Slot N)}
    (h : Fresh (i :: rest) R) : Fresh rest (insert i R) := by
  have hnd := List.nodup_cons.mp h.nodup
  refine ⟨hnd.2, fun k hk hmem => ?_, fun k hk => h.ne_zero k (List.mem_cons_of_mem _ hk)⟩
  rcases Finset.mem_insert.mp hmem with rfl | hmem
  · exact hnd.1 hk
  · exact h.not_mem k (List.mem_cons_of_mem _ hk) hmem

/-- What one insertion keeps holds after some rows are inserted. -/
theorem inserted_keeps {Inv : State α N → Finset (Slot N) → Prop}
    (hstep : ∀ s R i next, Inv s R → i ∉ R → i ≠ 0 →
      (insertRow A cost reach s i).state = some next → Inv next (insert i R)) :
    ∀ (rows : List (Slot N)) (s : State α N) (R : Finset (Slot N)) (t : State α N), Inv s R →
      Fresh rows R → inserted A cost reach s rows = some t → Inv t (R ∪ rows.toFinset) := by
  intro rows
  induction rows with
  | nil =>
      intro s R t hs _ ht
      rw [List.toFinset_nil, Finset.union_empty, ← Option.some.inj ht]
      exact hs
  | cons i rest ih =>
      intro s R t hs hfresh ht
      rcases Option.bind_eq_some_iff.mp ht with ⟨next, hnext, hrest⟩
      have hinv := hstep s R i next hs (hfresh.not_mem i List.mem_cons_self)
        (hfresh.ne_zero i List.mem_cons_self) hnext
      rw [List.toFinset_cons, Finset.union_insert, ← Finset.insert_union]
      exact ih next (insert i R) t hinv hfresh.tail hrest

/-- If one insertion succeeds from every state with the invariant, some rows can be
    inserted. -/
theorem inserted_exists {Inv : State α N → Finset (Slot N) → Prop}
    (hstep : ∀ s R i, Inv s R → i ∉ R → i ≠ 0 →
      ∃ next, (insertRow A cost reach s i).state = some next ∧ Inv next (insert i R)) :
    ∀ (rows : List (Slot N)) (s : State α N) (R : Finset (Slot N)), Inv s R → Fresh rows R →
      ∃ t, inserted A cost reach s rows = some t := by
  intro rows
  induction rows with
  | nil => intro s R _ _; exact ⟨s, rfl⟩
  | cons i rest ih =>
      intro s R hs hfresh
      rcases hstep s R i hs (hfresh.not_mem i List.mem_cons_self)
        (hfresh.ne_zero i List.mem_cons_self) with ⟨next, hnext, hinv⟩
      rcases ih next (insert i R) hinv hfresh.tail with ⟨t, ht⟩
      exact ⟨t, by rw [inserted, hnext, Option.bind_some, ht]⟩

theorem fresh_rows (N : Nat) : Fresh (rows N) ∅ where
  nodup := (List.nodup_finRange N).map (Fin.succ_injective N)
  not_mem := fun i _ => Finset.notMem_empty i
  ne_zero := fun _ hi => mem_rows.mp hi

/-- The rows that were inserted are the ones that are matched. -/
theorem Settled.of_inserted {rows : List (Slot N)} {s : State α N} (hrows : Fresh rows ∅)
    (h : inserted A cost reach (State.start A N) rows = some s) : Settled s rows.toFinset := by
  have hs := inserted_keeps (fun _ _ _ _ hs hi hi0 hnext => hs.insertRow hi hi0 hnext) rows _ ∅ s
    (Settled.start A) hrows h
  rw [Finset.empty_union] at hs
  exact hs

end Search

end Roster
