import Mathlib.Data.Fintype.Card
import Roster.Search.Basic

/-!
# Trails

The way back from the column that a search ends at. A trail that ends is a function of its
first column alone: any two bounds that suffice give the same columns. That settles all
else. A column that came twice would start the same trail twice, once shorter than the
other, so the columns are distinct, and no link leads back to the first of them.

`flip` writes along the trail while it reads from it. Since no link leads back, each
column still reads what was there before the first was written, and the outcome can be
said without the order of writing: `flip_get`.

## Theorems

* `trail_eq_cons`, `trail_cons`: A trail from a column goes on from where that column was
  reached.
* `trail_unique`: A trail does not depend on the bound.
* `trail_suffix`: What follows a column of a trail is the trail from there.
* `trail_ne_start`: No link of a trail leads back to its start.
* `trail_nodup`, `length_trail_le`: A trail passes no column twice.
* `trail_eq_none`: A way back that is longer than that never ends.
* `trail_exists`: A trail ends if every link leads further back.
* `flip_get`: What stands in a column after rows were handed back.
* `trail_congr`, `flip_congr`: No link counts but those of the trail.
-/

namespace Roster

namespace Search

variable {N : Nat} {cameFrom : Vector (Slot N) (N + 1)}

theorem trail_zero (cameFrom : Vector (Slot N) (N + 1)) (fuel : Nat) :
    trail cameFrom fuel 0 = some [] := by
  cases fuel with
  | zero => simp only [trail, if_true]
  | succ fuel => simp only [trail, if_true]

theorem trail_eq_cons {fuel : Nat} {j : Slot N} {columns : List (Slot N)}
    (h : trail cameFrom fuel j = some columns) (hj : j ≠ 0) :
    ∃ before rest, fuel = before + 1 ∧ columns = j :: rest ∧
      trail cameFrom before cameFrom[j] = some rest := by
  cases fuel with
  | zero =>
      simp only [trail, if_neg hj, reduceCtorEq] at h
  | succ before =>
      rw [trail, if_neg hj] at h
      rcases Option.map_eq_some_iff.mp h with ⟨rest, hrest, heq⟩
      exact ⟨before, rest, rfl, heq.symm, hrest⟩

/-- A trail that holds a column starts there, and what follows is the trail from where that
    column was reached. -/
theorem trail_cons {fuel : Nat} {j x : Slot N} {rest : List (Slot N)}
    (h : trail cameFrom fuel j = some (x :: rest)) :
    x = j ∧ j ≠ 0 ∧ ∃ before, trail cameFrom before cameFrom[j] = some rest := by
  by_cases hj : j = 0
  · rw [hj, trail_zero] at h
    exact absurd (Option.some.inj h) (List.cons_ne_nil _ _).symm
  · rcases trail_eq_cons h hj with ⟨before, tail, _, hc, htail⟩
    rcases List.cons.inj hc with ⟨rfl, rfl⟩
    exact ⟨rfl, hj, before, htail⟩

theorem trail_unique {fuel other : Nat} {j : Slot N} {columns others : List (Slot N)}
    (h : trail cameFrom fuel j = some columns) (h' : trail cameFrom other j = some others) :
    columns = others := by
  induction columns generalizing fuel other j others with
  | nil =>
      by_cases hj : j = 0
      · rw [hj, trail_zero] at h'
        exact Option.some.inj h'
      · rcases trail_eq_cons h hj with ⟨_, _, _, hc, _⟩
        exact absurd hc (List.cons_ne_nil _ _).symm
  | cons x rest ih =>
      rcases trail_cons h with ⟨rfl, hj, before, hrest⟩
      rcases trail_eq_cons h' hj with ⟨before', rest', _, hc', hrest'⟩
      rw [hc', ih hrest hrest']

/-- What follows a column of a trail is the trail from there, and it is shorter than the
    whole. -/
theorem trail_suffix {fuel : Nat} {j x : Slot N} {columns : List (Slot N)}
    (h : trail cameFrom fuel j = some columns) (hx : x ∈ columns) :
    x ≠ 0 ∧ ∃ left rest, trail cameFrom left cameFrom[x] = some rest ∧
      rest.length < columns.length ∧ rest ⊆ columns := by
  induction columns generalizing fuel j with
  | nil => exact absurd hx List.not_mem_nil
  | cons y ys ih =>
      rcases trail_cons h with ⟨rfl, hj, before, hrest⟩
      rcases List.mem_cons.mp hx with rfl | hmem
      · exact ⟨hj, before, ys, hrest, Nat.lt_succ_self _, List.subset_cons_self _ _⟩
      · rcases ih hrest hmem with ⟨hx0, left, tail, ht, hlen, hsub⟩
        exact ⟨hx0, left, tail, ht, Nat.lt_succ_of_lt hlen,
          fun z hz => List.mem_cons_of_mem _ (hsub hz)⟩

/-- A link back to the start would begin the same trail again with fewer columns left. -/
theorem trail_ne_start {fuel : Nat} {j x : Slot N} {columns : List (Slot N)}
    (h : trail cameFrom fuel j = some columns) (hx : x ∈ columns) : cameFrom[x] ≠ j := by
  intro hback
  rcases trail_suffix h hx with ⟨_, left, rest, hrest, hlen, _⟩
  rw [hback] at hrest
  rw [trail_unique h hrest] at hlen
  exact absurd hlen (Nat.lt_irrefl _)

/-- A column that came twice would be followed by the same trail twice. -/
theorem trail_nodup {fuel : Nat} {j : Slot N} {columns : List (Slot N)}
    (h : trail cameFrom fuel j = some columns) : columns.Nodup := by
  induction columns generalizing fuel j with
  | nil => exact List.nodup_nil
  | cons x rest ih =>
      rcases trail_cons h with ⟨rfl, _, before, hrest⟩
      refine List.nodup_cons.mpr ⟨fun hmem => ?_, ih hrest⟩
      rcases trail_suffix hrest hmem with ⟨_, left, again, hagain, hlen, _⟩
      rw [trail_unique hrest hagain] at hlen
      exact absurd hlen (Nat.lt_irrefl _)

/-- A trail passes the virtual column only at its end, so it has one column less than there
    are. -/
theorem length_trail_le {fuel : Nat} {j : Slot N} {columns : List (Slot N)}
    (h : trail cameFrom fuel j = some columns) : columns.length ≤ N := by
  -- With the virtual column at its end a trail still has no column twice.
  have hzero : (0 : Slot N) ∉ columns := fun hmem => (trail_suffix h hmem).1 rfl
  have hle := List.Nodup.length_le_card (List.nodup_cons.mpr ⟨hzero, trail_nodup h⟩)
  rw [Fintype.card_fin, List.length_cons] at hle
  exact Nat.le_of_succ_le_succ hle

theorem trail_of_length_le {fuel bound : Nat} {j : Slot N} {columns : List (Slot N)}
    (h : trail cameFrom fuel j = some columns) (hlen : columns.length ≤ bound) :
    trail cameFrom bound j = some columns := by
  induction columns generalizing fuel bound j with
  | nil =>
      by_cases hj : j = 0
      · rw [hj, trail_zero]
      · rcases trail_eq_cons h hj with ⟨_, _, _, hc, _⟩
        exact absurd hc (List.cons_ne_nil _ _).symm
  | cons x rest ih =>
      rcases trail_cons h with ⟨rfl, hj, before, hrest⟩
      cases bound with
      | zero => exact absurd hlen (Nat.not_succ_le_zero _)
      | succ bound =>
          rw [trail, if_neg hj, ih hrest (Nat.le_of_succ_le_succ hlen), Option.map_some]

/-- A way back that is not over after as many columns as there are closes a circle and never
    ends. -/
theorem trail_eq_none {j : Slot N} (h : trail cameFrom N j = none) (fuel : Nat) :
    trail cameFrom fuel j = none := by
  cases hc : trail cameFrom fuel j with
  | none => rfl
  | some columns =>
      rw [trail_of_length_le hc (length_trail_le hc)] at h
      exact absurd h (Option.some_ne_none columns)

/-- If every link of a list leads further back in it, the way back from a column of the list
    stays in it and ends. -/
theorem trail_exists (reached : List (Slot N))
    (hlink : ∀ (j : Slot N) (earlier : List (Slot N)), j :: earlier <:+ reached → j ≠ 0 →
      cameFrom[j] ∈ earlier) :
    ∀ (fuel : Nat) (j : Slot N) (earlier : List (Slot N)), j :: earlier <:+ reached →
      earlier.length ≤ fuel → ∃ columns, trail cameFrom fuel j = some columns ∧
        columns ⊆ j :: earlier := by
  intro fuel
  induction fuel with
  | zero =>
      intro j earlier hsuf hlen
      by_cases hj : j = 0
      · rw [hj, trail_zero]
        exact ⟨[], rfl, List.nil_subset _⟩
      · have hmem := hlink j earlier hsuf hj
        rw [List.eq_nil_of_length_eq_zero (Nat.le_zero.mp hlen)] at hmem
        exact absurd hmem List.not_mem_nil
  | succ fuel ih =>
      intro j earlier hsuf hlen
      by_cases hj : j = 0
      · rw [hj, trail_zero]
        exact ⟨[], rfl, List.nil_subset _⟩
      -- The list splits at the column that the link leads to.
      rcases List.append_of_mem (hlink j earlier hsuf hj) with ⟨between, before, heq⟩
      have hnext : cameFrom[j] :: before <:+ earlier := heq ▸ List.suffix_append _ _
      have hshort : before.length < earlier.length := by
        rw [heq, List.length_append, List.length_cons]
        omega
      have hrest := hnext.trans ((List.suffix_cons j earlier).trans hsuf)
      rcases ih cameFrom[j] before hrest (by omega)
        with ⟨columns, hc, hsub⟩
      refine ⟨j :: columns, by rw [trail, if_neg hj, hc, Option.map_some], fun x hx => ?_⟩
      rcases List.mem_cons.mp hx with rfl | hx
      · exact List.mem_cons_self
      · exact List.mem_cons_of_mem _ (hnext.subset (hsub hx))

/-- A column of the trail takes the row that stood where it was reached from, and every other
    column keeps its own. -/
theorem flip_get {fuel : Nat} {j : Slot N} {columns : List (Slot N)}
    (h : trail cameFrom fuel j = some columns) (rowOf : Vector (Slot N) (N + 1)) (x : Slot N) :
    (x ∈ columns → (flip cameFrom columns rowOf)[x] = rowOf[cameFrom[x]]) ∧
      (x ∉ columns → (flip cameFrom columns rowOf)[x] = rowOf[x]) := by
  induction columns generalizing fuel j rowOf with
  | nil => exact ⟨fun hx => absurd hx List.not_mem_nil, fun _ => rfl⟩
  | cons y ys ih =>
      rcases trail_cons h with ⟨rfl, _, before, hrest⟩
      rcases ih hrest (put rowOf y rowOf[cameFrom[y]]) with ⟨hlater, hkept⟩
      by_cases hx : x ∈ ys
      · -- The later columns read behind the start, which is all that was written yet.
        have hne := trail_ne_start h (List.mem_cons_of_mem _ hx)
        refine ⟨fun _ => ?_, fun hmem => absurd (List.mem_cons_of_mem _ hx) hmem⟩
        rw [flip, hlater hx, put_get, if_neg hne.symm]
      · rw [flip, hkept hx, put_get]
        by_cases hxy : y = x
        · refine ⟨fun _ => ?_, fun hmem => absurd (hxy ▸ List.mem_cons_self) hmem⟩
          rw [if_pos hxy, hxy]
        · refine ⟨fun hmem => ?_, fun _ => if_neg hxy⟩
          exact absurd hmem fun hmem => (List.mem_cons.mp hmem).elim (fun e => hxy e.symm) hx

/-! ### Other links -/

variable {cameFrom' : Vector (Slot N) (N + 1)}

/-- A trail reads no link but those of its own columns. -/
theorem trail_congr {fuel : Nat} {j : Slot N} {columns : List (Slot N)}
    (h : trail cameFrom fuel j = some columns) (hsame : ∀ x ∈ columns, cameFrom'[x] = cameFrom[x]) :
    trail cameFrom' fuel j = some columns := by
  induction columns generalizing fuel j with
  | nil =>
      by_cases hj : j = 0
      · rw [hj, trail_zero]
      · rcases trail_eq_cons h hj with ⟨_, _, _, hc, _⟩
        exact absurd hc (List.cons_ne_nil _ _).symm
  | cons x rest ih =>
      rcases trail_cons h with ⟨rfl, hj, _⟩
      rcases trail_eq_cons h hj with ⟨before, tail, rfl, hc, htail⟩
      rcases List.cons.inj hc with ⟨_, rfl⟩
      rw [trail, if_neg hj, hsame x List.mem_cons_self,
        ih htail fun z hz => hsame z (List.mem_cons_of_mem _ hz), Option.map_some]

theorem flip_congr {columns : List (Slot N)} (hsame : ∀ x ∈ columns, cameFrom'[x] = cameFrom[x])
    (rowOf : Vector (Slot N) (N + 1)) :
    flip cameFrom' columns rowOf = flip cameFrom columns rowOf := by
  induction columns generalizing rowOf with
  | nil => rfl
  | cons x rest ih =>
      rw [flip, flip, hsame x List.mem_cons_self]
      exact ih (fun z hz => hsame z (List.mem_cons_of_mem _ hz)) _

end Search

end Roster
