import Roster.Proofs.Exhaustive.Optimality
import Roster.Proofs.Fallible
import Roster.Proofs.Number.Order
import Roster.Proofs.Pairing.Inside
import Roster.Solver.Basic
import Roster.Solver.Reference

/-!
# The Exhaustive Search in Doubles

Sums of doubles depend on the order of their terms, may be infinite, and may be no number at
all, so "a cheapest matching" is not a notion here. What the search answers with can still be
said exactly: sums run from the left, along the smaller side; a sum wins if it is below
infinity and not above any other sum that is a number; and of several such choices the
lexicographically first one is taken. If no sum is below infinity, nobody is matched.

The comparison of doubles ranks the sums below infinity, whatever it does to the others, and
that is all that the fold over the choices asks of it.

A choice is one of jobs for workers, or of workers for jobs if there are fewer of them. Both
spell a matching, the second one the other way round, and no saturating matching is without
such a choice.

## Main definitions

* `IsChoice`: Distinct members of the larger side for those of the smaller one.
* `choiceTotal`: The sum of the costs of a choice.
* `IsLeast`: Whether a choice wins over the others.
* `IsFirst`: The first choice that does.
* `Matching.Spells`: A matching with given pairs.
* `Covers`: What is tried for one side.
* `Settles`: What the search makes of it.

## Theorems

* `ranks_double`: Doubles below infinity are ranked.
* `leastChoice_first`: The search finds the first choice that wins.
* `exhaustive_settles`: What the exhaustive method answers in doubles.
-/

namespace Roster

/-- A matching that saturates its table and has these pairs, in any order. -/
structure Matching.Spells (n m : Nat) (pairs : List (Nat × Nat)) (M : Matching) : Prop where
  saturates : M.Saturates n m
  mem_iff : ∀ x, x ∈ M.pairs ↔ x ∈ pairs

namespace Exhaustive

theorem ranks_double : Ranks .double isBounded where
  asymm := fun a b _ _ hab => by
    rcases Binary64.lt_iff.mp (of_decide_eq_true hab) with ⟨k, l, hk, hl, hlt⟩
    refine decide_eq_false fun hba => ?_
    rcases Binary64.lt_iff.mp hba with ⟨l', k', hl', hk', hlt'⟩
    rw [hk, Option.some.injEq] at hk'
    rw [hl, Option.some.injEq] at hl'
    exact absurd (hk' ▸ hl' ▸ hlt') (lt_asymm hlt)
  below := fun a b c _ hb hc hab hcb => by
    -- What is below infinity is a number, and among numbers not less means at most.
    have hb' := Binary64.isSome_key?_of_lt (of_decide_eq_true hb)
    have hc' := Binary64.isSome_key?_of_lt (of_decide_eq_true hc)
    have hle := (Binary64.not_lt_iff hc' hb').mp (of_decide_eq_false hcb)
    exact decide_eq_true (Binary64.lt_of_lt_of_le (of_decide_eq_true hab) hle)

/-! ### Choices for one side -/

variable {p q : Nat} {cost : Fin p → Fin q → Float} {choice : List (Fin q)}

/-- Distinct members of the larger side, one for each of the `p` members of the smaller one. -/
structure IsChoice (p : Nat) (choice : List (Fin q)) : Prop where
  length : choice.length = p
  nodup : choice.Nodup

theorem mem_selections_finRange : choice ∈ selections p (List.finRange q) ↔ IsChoice p choice := by
  rw [mem_selections (List.nodup_finRange q)]
  exact ⟨fun h => ⟨h.1, h.2.1⟩, fun h => ⟨h.length, h.nodup, fun x _ => List.mem_finRange x⟩⟩

/-- The costs of a choice, added from the left. -/
def choiceTotal (cost : Fin p → Fin q → Float) (choice : List (Fin q)) : Float :=
  ((List.finRange p).zip choice).foldl (fun sum x => sum + cost x.1 x.2) 0.0

theorem totalFrom_double (cost : Fin p → Fin q → Float) (choice : List (Fin q)) :
    totalFrom .double cost (List.finRange p) choice Arithmetic.double.zero =
      choiceTotal cost choice :=
  totalFrom_eq_foldl _ _ _ _ _

/-- A choice whose sum is below infinity, and not above that of any choice whose sum is a
    number. -/
structure IsLeast (cost : Fin p → Fin q → Float) (choice : List (Fin q)) : Prop
    extends IsChoice p choice where
  bounded : choiceTotal cost choice < Decimal.infinity
  le : ∀ other, IsChoice p other → (choiceTotal cost other).isNaN = false →
    choiceTotal cost choice ≤ choiceTotal cost other

/-- The lexicographically first of these. -/
structure IsFirst (cost : Fin p → Fin q → Float) (choice : List (Fin q)) : Prop
    extends IsLeast cost choice where
  first : ∀ other, IsLeast cost other → other ≠ choice → choice < other

/-- The first least choice in the order of the search is the lexicographically first one. -/
theorem IsFirstLeast.isFirst (h : IsFirstLeast .double isBounded (choiceTotal cost)
    (selections p (List.finRange q)) choice) : IsFirst cost choice := by
  have hchoice := mem_selections_finRange.mp h.mem
  have hbounded : choiceTotal cost choice < Decimal.infinity := of_decide_eq_true h.1
  have hnumber := Binary64.isSome_key?_of_lt hbounded
  refine ⟨⟨hchoice, hbounded, fun other hother hnan => ?_⟩, fun other hother hne => ?_⟩
  · have hkey := Binary64.isSome_key?_iff.mpr hnan
    by_cases hlt : choiceTotal cost other < Decimal.infinity
    · have hless := h.not_less ranks_double (mem_selections_finRange.mpr hother)
        (decide_eq_true hlt)
      exact (Binary64.not_lt_iff hkey hnumber).mp (of_decide_eq_false hless)
    · -- A sum that is not below infinity is above all that are.
      have hle := (Binary64.not_lt_iff hkey rfl).mp hlt
      exact Binary64.le_of_lt (Binary64.lt_of_lt_of_le hbounded hle)
  · rcases h with ⟨_, before, after, hsplit, hbefore, _⟩
    have hmem := mem_selections_finRange.mpr hother.toIsChoice
    have hsorted := pairwise_selections (List.pairwise_lt_finRange q) p
    rw [hsplit] at hmem hsorted
    rcases List.mem_append.mp hmem with hmem | hmem
    · -- What was tried before has a greater sum, so it does not win.
      have hless := of_decide_eq_true (hbefore other hmem (decide_eq_true hother.bounded))
      have hle := hother.le choice hchoice (Binary64.isSome_key?_iff.mp hnumber)
      exact absurd hless ((Binary64.not_lt_iff hnumber
        (Binary64.isSome_key?_of_lt hother.bounded)).mpr hle)
    · rcases List.mem_cons.mp hmem with rfl | hmem
      · exact absurd rfl hne
      · exact (List.pairwise_cons.mp (List.pairwise_append.mp hsorted).2.1).1 other hmem

/-- The search finds the first choice that wins, or there is none. -/
theorem leastChoice_first (cost : Fin p → Fin q → Float) :
    (∃ least choice, leastChoice .double isBounded cost (List.finRange p)
        (List.finRange q) = some (least, choice) ∧ IsFirst cost choice) ∨
      leastChoice .double isBounded cost (List.finRange p) (List.finRange q) = none ∧
        ∀ choice, IsChoice p choice → ¬ choiceTotal cost choice < Decimal.infinity := by
  have hbest := leastChoice_isBest ranks_double cost (List.finRange p) (List.finRange q)
  simp only [totalFrom_double, List.length_finRange] at hbest
  cases hleast : leastChoice .double isBounded cost (List.finRange p)
      (List.finRange q) with
  | none =>
      rw [hleast] at hbest
      refine Or.inr ⟨rfl, fun choice hchoice => ?_⟩
      exact of_decide_eq_false (hbest choice (mem_selections_finRange.mpr hchoice))
  | some best =>
      rw [hleast] at hbest
      exact Or.inl ⟨best.1, best.2, rfl, hbest.2.isFirst⟩

/-! ### What choices spell -/

/-- The pairs of a choice of jobs for workers. -/
def jobChoice (choice : List (Fin q)) : List (Nat × Nat) :=
  Matching.jobPairs (choice.map Fin.val)

/-- The pairs of a choice of workers for jobs. -/
def workerChoice (choice : List (Fin q)) : List (Nat × Nat) :=
  (jobChoice choice).map Prod.swap

theorem IsChoice.nodup_val (h : IsChoice p choice) : (choice.map Fin.val).Nodup :=
  h.nodup.map Fin.val_injective

theorem IsChoice.saturating (h : IsChoice p choice) :
    Saturating p q (jobChoice choice).toFinset := by
  refine Matching.saturating_jobPairs ((List.length_map _).trans h.length) h.nodup_val
    fun x hx => ?_
  rcases List.mem_map.mp hx with ⟨y, _, rfl⟩
  exact y.isLt

theorem toFinset_workerChoice (choice : List (Fin q)) :
    (workerChoice choice).toFinset = (jobChoice choice).toFinset.image Prod.swap := by
  ext x
  rw [List.mem_toFinset, workerChoice, List.mem_map, Finset.mem_image]
  simp only [List.mem_toFinset]

theorem spells_of_toFinset {n m : Nat} {M : Matching} {pairs : List (Nat × Nat)}
    (h : M.Saturates n m) (heq : M.pairs.toFinset = pairs.toFinset) : M.Spells n m pairs :=
  ⟨h, fun x => by rw [← List.mem_toFinset, heq, List.mem_toFinset]⟩

theorem IsChoice.spells_ofJobs (h : IsChoice p choice) :
    (ofJobs q (choice.map Fin.val)).Spells p q (jobChoice choice) := by
  rcases saturates_ofJobs h.nodup_val h.saturating with ⟨hsat, heq⟩
  exact spells_of_toFinset hsat heq

theorem IsChoice.spells_workers (h : IsChoice p choice) :
    Matching.Spells q p (workerChoice choice) (choice.map fun w => (w.val : Int)) := by
  rcases saturates_workers h.length h.saturating with ⟨hsat, heq⟩
  exact spells_of_toFinset hsat (heq.trans (toFinset_workerChoice choice).symm)

/-- What is tried for `p` members of one side and `q` of the other: every choice once, in
    lexicographic order, and among their pairs those of every saturating matching. -/
structure Covers (n m p q : Nat) (pairs : List (Fin q) → List (Nat × Nat)) : Prop where
  mem_iff : ∀ choice : List (Fin q), choice ∈ selections p (List.finRange q) ↔ IsChoice p choice
  sorted : (selections p (List.finRange q)).Pairwise (· < ·)
  complete : ∀ M : Matching, M.Saturates n m →
    ∃ choice ∈ selections p (List.finRange q), M.Spells n m (pairs choice)

/-- A saturating pairing is that of a choice for its smaller side. -/
theorem exists_choice (hpq : p ≤ q) {M : Finset (Nat × Nat)} (h : Saturating p q M) :
    ∃ choice ∈ selections p (List.finRange q), (jobChoice choice).toFinset = M := by
  rcases h.exists_jobs hpq with ⟨jobs, hlen, hnodup, hlt, heq⟩
  rcases exists_fin hlt with ⟨choice, rfl⟩
  rw [List.length_map] at hlen
  exact ⟨choice, mem_selections_finRange.mpr ⟨hlen, hnodup.of_map _⟩, heq⟩

theorem covers_jobs (hpq : p ≤ q) : Covers p q p q jobChoice where
  mem_iff := fun _ => mem_selections_finRange
  sorted := pairwise_selections (List.pairwise_lt_finRange q) p
  complete := fun M hM => by
    rcases exists_choice hpq hM.pairs with ⟨choice, hchoice, heq⟩
    exact ⟨choice, hchoice, spells_of_toFinset hM heq.symm⟩

theorem covers_workers (hpq : p ≤ q) : Covers q p p q workerChoice where
  mem_iff := fun _ => mem_selections_finRange
  sorted := pairwise_selections (List.pairwise_lt_finRange q) p
  complete := fun M hM => by
    rcases exists_choice hpq hM.pairs.swap with ⟨choice, hchoice, heq⟩
    refine ⟨choice, hchoice, spells_of_toFinset hM ?_⟩
    -- Turned over twice, the pairs are the same again.
    rw [toFinset_workerChoice, heq, Finset.image_image, Prod.swap_swap_eq, Finset.image_id]

/-! ### The method -/

/-- What the search makes of the choices of one side: the matching of the first one that wins,
    or no matching and no cost if none can. -/
def Settles (n m : Nat) (cost : Fin p → Fin q → Float)
    (pairs : List (Fin q) → List (Nat × Nat)) (o : Outcome Float) : Prop :=
  (∃ choice, IsFirst cost choice ∧ o.workerOf.Spells n m (pairs choice)) ∨
    (∀ choice, IsChoice p choice → ¬ choiceTotal cost choice < Decimal.infinity) ∧
      o.workerOf = List.replicate m (-1) ∧ o.total = 0.0

variable {costs : Grid Float} {o : Outcome Float}

theorem workerOf_of_ofMatching {M : Matching} {u v : List Float}
    (ho : Outcome.ofMatching .double costs M u v = .ok o) : o.workerOf = M := by
  rcases map_eq_ok_iff.mp ho with ⟨_, _, rfl⟩
  rfl

/-- With nobody matched there is nothing to add. -/
theorem settles_unassigned {n : Nat} {cost : Fin p → Fin q → Float}
    {pairs : List (Fin q) → List (Nat × Nat)}
    (ho : Outcome.ofMatching .double costs (Matching.unassigned costs.width) [] [] = .ok o)
    (hnone : ∀ choice, IsChoice p choice → ¬ choiceTotal cost choice < Decimal.infinity) :
    Settles n costs.width cost pairs o := by
  rcases map_eq_ok_iff.mp ho with ⟨total, htotal, rfl⟩
  rw [Matching.pairs_unassigned] at htotal
  exact Or.inr ⟨hnone, rfl, (Except.ok.inj htotal).symm⟩

/-- The outcome of the matching that the search finds. -/
theorem settles_of_ofMatching (hn : costs.height ≠ 0) (hm : costs.width ≠ 0)
    (ho : Outcome.ofMatching .double costs (matching .double isBounded costs) [] [] =
      .ok o) :
    (costs.height ≤ costs.width →
      Settles costs.height costs.width (fun w j => costs.get w j) jobChoice o) ∧
    (costs.width < costs.height →
      Settles costs.height costs.width (fun j w => costs.get w j) workerChoice o) := by
  rw [matching, if_neg (not_or.mpr ⟨hn, hm⟩)] at ho
  constructor
  · intro hle
    rw [if_pos hle] at ho
    rcases leastChoice_first fun (w : Fin costs.height) (j : Fin costs.width) => costs.get w j
      with ⟨least, jobs, hleast, hfirst⟩ | ⟨hleast, hnone⟩
    · rw [hleast] at ho
      exact Or.inl ⟨jobs, hfirst, workerOf_of_ofMatching ho ▸ hfirst.toIsChoice.spells_ofJobs⟩
    · rw [hleast] at ho
      exact settles_unassigned ho hnone
  · intro hlt
    rw [if_neg (Nat.not_le.mpr hlt)] at ho
    rcases leastChoice_first fun (j : Fin costs.width) (w : Fin costs.height) => costs.get w j
      with ⟨least, workers, hleast, hfirst⟩ | ⟨hleast, hnone⟩
    · rw [hleast] at ho
      exact Or.inl ⟨workers, hfirst, workerOf_of_ofMatching ho ▸ hfirst.toIsChoice.spells_workers⟩
    · rw [hleast] at ho
      exact settles_unassigned ho hnone

/-- On every table of doubles that is let through and not too large, checked or not, the
    exhaustive method answers with the first choice that wins, for whichever side is the smaller
    one; and what it tries is every choice, so that no saturating matching is left out. -/
theorem exhaustive_settles (library : Library Float) {input : CostInput} {config : Config}
    (hprepare : prepare none input config = .ok costs) (hpos : 1 ≤ min costs.height costs.width)
    (hside : min costs.height costs.width ≤ maxSide) :
    ∃ o, Method.exhaustive.solve library input config = .ok o ∧
      (costs.height ≤ costs.width →
        Settles costs.height costs.width (fun w j => costs.get w j) jobChoice o ∧
        Covers costs.height costs.width costs.height costs.width jobChoice) ∧
      (costs.width < costs.height →
        Settles costs.height costs.width (fun j w => costs.get w j) workerChoice o ∧
        Covers costs.height costs.width costs.width costs.height workerChoice) := by
  rcases (inside_matching .double isBounded costs).exists_outcome .double [] [] with ⟨o, ho⟩
  -- Nothing but the size limit could refuse a table that was let through.
  have hsolve : Method.exhaustive.solve library input config = .ok o := by
    rw [Method.solve, hprepare]
    simp only [bind, Except.bind, Method.solvePrepared, if_neg (Nat.not_lt.mpr hside)]
    exact ho
  rcases settles_of_ofMatching (by omega) (by omega) ho with ⟨hjobs, hworkers⟩
  exact ⟨o, hsolve, fun hle => ⟨hjobs hle, covers_jobs hle⟩,
    fun hlt => ⟨hworkers hlt, covers_workers (Nat.le_of_lt hlt)⟩⟩

/-- Three choices of jobs for the two workers tie, two have no sum, and one has an infinite
    one. -/
def tiedChoices : Grid Float where
  height := 2
  width := 3
  cells := #v[0.0 / 0.0, 1.0, 1.0, 2.0, 1.0 / 0.0, 2.0]

/-- Three workers and two jobs, none of whose pairings has a sum below infinity. -/
def hopelessChoices : Grid Float where
  height := 3
  width := 2
  cells := #v[0.0 / 0.0, 1.0 / 0.0, 1.0 / 0.0, 0.0 / 0.0, 0.0 / 0.0, 1.0 / 0.0]

theorem exhaustive_settles_tiedChoices_hopelessChoices :
    (prepare none (CostMatrix.gridInput tiedChoices) unchecked = .ok tiedChoices ∧
      1 ≤ min 2 3 ∧ min 2 3 ≤ maxSide ∧
      ∃ o, Method.exhaustive.solve Reference.library (CostMatrix.gridInput tiedChoices) unchecked =
          .ok o ∧
        Settles 2 3 (fun w j => tiedChoices.get w j) jobChoice o) ∧
    prepare none (CostMatrix.gridInput hopelessChoices) unchecked = .ok hopelessChoices ∧
      1 ≤ min 3 2 ∧ min 3 2 ≤ maxSide ∧
      ∃ o, Method.exhaustive.solve Reference.library (CostMatrix.gridInput hopelessChoices)
          unchecked = .ok o ∧
        Settles 3 2 (fun j w => hopelessChoices.get w j) workerChoice o := by
  have htied : prepare none (CostMatrix.gridInput tiedChoices) unchecked = .ok tiedChoices := rfl
  have hhopeless : prepare none (CostMatrix.gridInput hopelessChoices) unchecked =
      .ok hopelessChoices := rfl
  rcases exhaustive_settles Reference.library htied (by decide) (by decide) with ⟨o, ho, hjobs, _⟩
  rcases exhaustive_settles Reference.library hhopeless (by decide) (by decide)
    with ⟨o', ho', _, hworkers⟩
  exact ⟨⟨htied, by decide, by decide, o, ho, (hjobs (by decide)).1⟩, hhopeless, by decide,
    by decide, o', ho', (hworkers (by decide)).1⟩

end Exhaustive

end Roster
