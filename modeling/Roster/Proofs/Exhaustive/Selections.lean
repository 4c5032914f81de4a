import Mathlib.Data.List.Induction
import Roster.Solver.Exhaustive

/-!
# What Is Tried

The exhaustive search is a fold. It never builds the list of choices, but it meets them in
the order of `selections`, each with its total, and keeps a new one only if it is strictly
better. So what it answers can be said without the recursion: the first choice of the list
among those of least total.

The list misses nothing. A choice is in it if it has the right length, takes everything
from the pool, and takes nothing twice; this is what makes it all matchings of one side.

Ranking is all that is asked of an arithmetic here, and only for totals that can win.

## Main definitions

* `totalFrom`: The total of a choice.
* `IsFirstLeast`: The first choice of least total.
* `IsBest`: What the best choice so far says of the choices that were tried.
* `Ranks`: Whether the comparison of an arithmetic ranks the totals that can win.

## Theorems

* `mem_selections`: All choices of distinct members are tried.
* `pairwise_selections`: They are tried in lexicographic order.
* `explore_eq`: The search is a fold over them.
* `isBest_foldl`: The fold keeps the first least choice.
* `leastChoice_isBest`: The search answers with it.
-/

namespace Roster

namespace Exhaustive

variable {α σ ι : Type}

section Selections

variable [DecidableEq ι]

/-- The choices of distinct members of a pool are those lists that can be made of it. -/
theorem mem_selections {pool : List ι} (hpool : pool.Nodup) {count : Nat} {choice : List ι} :
    choice ∈ selections count pool ↔
      choice.length = count ∧ choice.Nodup ∧ ∀ x ∈ choice, x ∈ pool := by
  induction count generalizing pool choice with
  | zero =>
      rw [selections, List.mem_singleton]
      constructor
      · rintro rfl
        exact ⟨rfl, List.nodup_nil, fun x hx => absurd hx List.not_mem_nil⟩
      · exact fun h => List.length_eq_zero_iff.mp h.1
  | succ k ih =>
      -- The others are chosen from the pool without the first, so none of them is the first.
      rw [selections, List.mem_flatMap]
      simp only [List.mem_map, ih (hpool.erase _), hpool.mem_erase_iff]
      constructor
      · rintro ⟨x, hx, rest, ⟨hlen, hnodup, hmem⟩, rfl⟩
        refine ⟨?_, ?_, ?_⟩
        · rw [List.length_cons, hlen]
        · exact List.nodup_cons.mpr ⟨fun h => (hmem x h).1 rfl, hnodup⟩
        · intro y hy
          rcases List.mem_cons.mp hy with rfl | hy
          · exact hx
          · exact (hmem y hy).2
      · rintro ⟨hlen, hnodup, hmem⟩
        rcases List.exists_cons_of_length_eq_add_one hlen with ⟨x, rest, rfl⟩
        rw [List.nodup_cons] at hnodup
        refine ⟨x, hmem x List.mem_cons_self, rest, ⟨Nat.succ.inj hlen, hnodup.2, ?_⟩, rfl⟩
        intro y hy
        exact ⟨fun h => hnodup.1 (h ▸ hy), hmem y (List.mem_cons_of_mem x hy)⟩

end Selections

/-- The choices come in lexicographic order, if the pool is increasing. -/
theorem pairwise_selections [BEq ι] [LT ι] {pool : List ι} (hpool : pool.Pairwise (· < ·))
    (count : Nat) : (selections count pool).Pairwise (· < ·) := by
  induction count generalizing pool with
  | zero => exact List.pairwise_singleton _ _
  | succ k ih =>
      rw [selections, List.pairwise_flatMap]
      constructor
      · -- Choices that begin alike are in the order of what follows.
        intro x _
        rw [List.pairwise_map]
        exact (ih (hpool.sublist List.erase_sublist)).imp fun h => List.Lex.cons h
      · refine hpool.imp fun hxy a ha b hb => ?_
        rcases List.mem_map.mp ha with ⟨a, _, rfl⟩
        rcases List.mem_map.mp hb with ⟨b, _, rfl⟩
        exact List.Lex.rel hxy

/-- The total of a choice for the members of a side, added to a sum from the left. -/
def totalFrom (A : Arithmetic α) (cost : σ → ι → α) : List σ → List ι → α → α
  | [], _, sum => sum
  | _ :: _, [], sum => sum
  | s :: side, x :: choice, sum => totalFrom A cost side choice (A.add sum (cost s x))

theorem totalFrom_eq_foldl (A : Arithmetic α) (cost : σ → ι → α) (side : List σ)
    (choice : List ι) (sum : α) : totalFrom A cost side choice sum =
      (side.zip choice).foldl (fun sum x => A.add sum (cost x.1 x.2)) sum := by
  induction side generalizing choice sum with
  | nil => rw [totalFrom, List.zip_nil_left, List.foldl_nil]
  | cons s rest ih =>
      cases choice with
      | nil => rw [totalFrom, List.zip_nil_right, List.foldl_nil]
      | cons x choice => rw [totalFrom, ih, List.zip_cons_cons, List.foldl_cons]

/-- The search visits the choices in order and keeps the better ones. -/
theorem explore_eq [BEq ι] (A : Arithmetic α) (bounded : α → Bool) (cost : σ → ι → α)
    (side : List σ) (pool : List ι) (sum : α) (taken : List ι) (best : Best α ι) :
    explore A bounded cost side pool sum taken best =
      (selections side.length pool).foldl
        (fun best choice =>
          keep A bounded (totalFrom A cost side choice sum) (taken.reverse ++ choice) best)
        best := by
  induction side generalizing pool sum taken best with
  | nil =>
      rw [List.length_nil, selections, List.foldl_cons, List.foldl_nil, List.append_nil]
      rfl
  | cons s rest ih =>
      rw [List.length_cons, selections, List.foldl_flatMap, explore]
      simp only [List.foldl_map]
      congr 1
      funext best x
      -- A choice that goes on with `x` has its total on top of the cost of `x`.
      rw [ih]
      simp only [totalFrom, List.reverse_cons, List.append_assoc, List.singleton_append]

/-- The first choice of a list whose total is least among those that can win. -/
def IsFirstLeast (A : Arithmetic α) (bounded : α → Bool) (total : ι → α) (xs : List ι) (x : ι) :
    Prop :=
  bounded (total x) = true ∧ ∃ before after, xs = before ++ x :: after ∧
    (∀ y ∈ before, bounded (total y) = true → A.less (total x) (total y) = true) ∧
    ∀ y ∈ after, bounded (total y) = true → A.less (total y) (total x) = false

/-- What the best choice so far says of the choices that were tried. -/
def IsBest (A : Arithmetic α) (bounded : α → Bool) (total : List ι → α) (xs : List (List ι)) :
    Best α ι → Prop
  | none => ∀ x ∈ xs, bounded (total x) = false
  | some (least, x) => least = total x ∧ IsFirstLeast A bounded total xs x

/-- Whether the comparison of an arithmetic ranks the totals that can win: it goes one way at
    most, and what is not below another is not below anything above that either. -/
structure Ranks (A : Arithmetic α) (bounded : α → Bool) : Prop where
  asymm : ∀ a b, bounded a = true → bounded b = true → A.less a b = true → A.less b a = false
  below : ∀ a b c, bounded a = true → bounded b = true → bounded c = true →
    A.less a b = true → A.less c b = false → A.less a c = true

namespace Ranks

variable {A : Arithmetic α} {bounded : α → Bool}

theorem trans (h : Ranks A bounded) {a b c : α} (ha : bounded a = true) (hb : bounded b = true)
    (hc : bounded c = true) (hab : A.less a b = true) (hbc : A.less b c = true) :
    A.less a c = true :=
  h.below a b c ha hb hc hab (h.asymm b c hb hc hbc)

end Ranks

section Fold

variable {A : Arithmetic α} {bounded : α → Bool} {total : List ι → α} {xs : List (List ι)}
  {best : Best α ι}

/-- One more choice. -/
theorem IsBest.keep (hrank : Ranks A bounded) (h : IsBest A bounded total xs best)
    (x : List ι) :
    IsBest A bounded total (xs ++ [x]) (keep A bounded (total x) x best) := by
  cases best with
  | none =>
      rw [Exhaustive.keep]
      -- Nothing was kept, so no total before this one could win.
      by_cases hx : bounded (total x) = true
      · rw [if_pos hx]
        refine ⟨rfl, hx, xs, [], rfl, fun y hy hbound => ?_, fun y hy => ?_⟩
        · exact absurd ((h y hy).symm.trans hbound) Bool.false_ne_true
        · exact absurd hy List.not_mem_nil
      · rw [if_neg hx]
        intro y hy
        rcases List.mem_append.mp hy with hy | hy
        · exact h y hy
        · rw [List.mem_singleton.mp hy]
          exact Bool.eq_false_iff.mpr hx
  | some entry =>
      rcases entry with ⟨least, kept⟩
      rcases h with ⟨rfl, hkept, before, after, rfl, hbefore, hafter⟩
      rw [Exhaustive.keep]
      by_cases hwin : (bounded (total x) && A.less (total x) (total kept)) = true
      · rw [if_pos hwin]
        rw [Bool.and_eq_true] at hwin
        -- The new choice comes last, so all the others have to be above it.
        refine ⟨rfl, hwin.1, before ++ kept :: after, [], rfl, fun y hy hbound => ?_,
          fun y hy => ?_⟩
        · rcases List.mem_append.mp hy with hy | hy
          · exact hrank.trans hwin.1 hkept hbound hwin.2 (hbefore y hy hbound)
          · rcases List.mem_cons.mp hy with rfl | hy
            · exact hwin.2
            · exact hrank.below _ _ _ hwin.1 hkept hbound hwin.2 (hafter y hy hbound)
        · exact absurd hy List.not_mem_nil
      · rw [if_neg hwin]
        refine ⟨rfl, hkept, before, after ++ [x], ?_, hbefore, fun y hy hbound => ?_⟩
        · rw [List.append_assoc, List.cons_append]
        · rcases List.mem_append.mp hy with hy | hy
          · exact hafter y hy hbound
          · rw [List.mem_singleton] at hy
            subst hy
            rw [hbound, Bool.true_and] at hwin
            exact Bool.eq_false_iff.mpr hwin

/-- A fold over choices keeps the first least one. -/
theorem isBest_foldl (hrank : Ranks A bounded) (xs : List (List ι)) :
    IsBest A bounded total xs
      (xs.foldl (fun best x => Exhaustive.keep A bounded (total x) x best) none) := by
  induction xs using List.reverseRecOn with
  | nil => exact fun x hx => absurd hx List.not_mem_nil
  | append_singleton xs x ih =>
      rw [List.foldl_append, List.foldl_cons, List.foldl_nil]
      exact ih.keep hrank x

end Fold

/-- The search answers with the first least of all choices. -/
theorem leastChoice_isBest [BEq ι] {A : Arithmetic α} {bounded : α → Bool}
    (hrank : Ranks A bounded) (cost : σ → ι → α) (side : List σ) (pool : List ι) :
    IsBest A bounded (fun choice => totalFrom A cost side choice A.zero)
      (selections side.length pool) (leastChoice A bounded cost side pool) := by
  rw [leastChoice, explore_eq]
  exact isBest_foldl hrank _

end Exhaustive

end Roster
