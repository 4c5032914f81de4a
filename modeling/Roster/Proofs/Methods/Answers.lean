import Roster.Proofs.Fallible
import Roster.Proofs.Padded.Termination
import Roster.Proofs.Pairing.Inside
import Roster.Proofs.Pairing.Square
import Roster.Solver.Basic

/-!
# What the Methods Answer in Doubles

On a prepared matrix each method finds a matching inside it, or fails for a reason of its
own: a setting that is no double, a search of which it is not known that it ends, what a library
says to the one table that it is asked about, or a matrix that is too large to try. No method
fails at a cost for what it is.

Nothing is supposed of the library. It may fail where it likes, and what it answers may be
nonsense: pairs that go beyond the matrix are noticed, as there are no costs for them. Conversely
a method copes with a matrix if its library answers with pairs inside it, and the padded search
copes with it if it is steady.

## Main definitions

* `Grid.inWords`: Scaled costs, as a library gets them.
* `Method.Failure`: The faults of a method on a prepared matrix.
* `Method.Copes`: What keeps a method from failing.
* `Method.Answers`: An answer inside a matrix, or a fault of a method.

## Theorems

* `Method.Copes.of_isAmple`: The padded search copes with all costs far below its cap.
* `Method.solvePrepared_answers`: What each method answers, with any library.
* `Method.Copes.not_failure`: A method does not fail at what it copes with.
-/

namespace Roster

/-- Costs times a factor, as integers of 64 bits. -/
def Grid.inWords (costs : Grid Float) (factor : Float) : Grid Int :=
  costs.map fun cost => Binary64.toWord (cost * factor)

/-- A library is asked about the scaled costs on their square, and what it says to them is all
    that can go wrong. -/
theorem Tools.scaledMatching_eq (library : Library Float) {costs : Grid Float}
    (hempty : ¬ costs.isEmpty = true) (factor : Float) :
    (Tools.doubles library).scaledMatching costs (.ok factor) =
      (library.mates (Square.ofGrid (costs.inWords factor))).map fun mates =>
        Matching.place costs.width (Square.kept costs.height costs.width mates) := by
  have hwhole : Square.wholeCosts ((Tools.doubles library).scaled factor) costs =
      .ok (costs.inWords factor) := Square.wholeCosts_of_some fun _ _ => rfl
  rw [scaledMatching, if_neg hempty]
  simp only [bind, Except.bind, hwhole]
  rfl

namespace Method

/-- The faults of a method on a prepared matrix. -/
inductive Failure (library : Library Float) (config : Config) (costs : Grid Float) :
    Method → Fault → Prop
  | setting (h : ¬ config.IsInRange) : Failure library config costs .padded .tooLarge
  | endless (h : ¬ config.IsSteady costs costs.height costs.width) :
    Failure library config costs .padded .endless
  | pairs {fault : Fault} (h : library.pairs costs = .error fault) :
    Failure library config costs .exact fault
  | beside {pairs : List (Nat × Nat)} (h : library.pairs costs = .ok pairs)
    (hbeside : ∃ x ∈ pairs, ¬ (x.1 < costs.height ∧ x.2 < costs.width)) :
    Failure library config costs .exact .outOfBounds
  | factor (h : config.costScale.toDouble? = none) :
    Failure library config costs .scaled .tooLarge
  | mates {fault : Fault} {factor : Float} (hfactor : config.costScale.toDouble? = some factor)
    (h : library.mates (Square.ofGrid (costs.inWords factor)) = .error fault) :
    Failure library config costs .scaled fault
  | tooMany (h : Exhaustive.maxSide < min costs.height costs.width) :
    Failure library config costs .exhaustive
      (.tooManyMatchings Exhaustive.maxSide costs.height costs.width)

/-- What keeps a method from failing: a search that is known to end, a library that answers
    inside the matrix, or few enough matchings. -/
inductive Copes (library : Library Float) (config : Config) (costs : Grid Float) : Method → Prop
  | padded (hrange : config.IsInRange) (h : config.IsSteady costs costs.height costs.width) :
    Copes library config costs .padded
  | exact {pairs : List (Nat × Nat)} (h : library.pairs costs = .ok pairs)
    (hinside : ∀ x ∈ pairs, x.1 < costs.height ∧ x.2 < costs.width) :
    Copes library config costs .exact
  | scaled {factor : Float} {mates : List Nat}
    (hfactor : config.costScale.toDouble? = some factor)
    (h : library.mates (Square.ofGrid (costs.inWords factor)) = .ok mates) :
    Copes library config costs .scaled
  | exhaustive (h : min costs.height costs.width ≤ Exhaustive.maxSide) :
    Copes library config costs .exhaustive

/-- With the cap far above the padding, the padded search copes with all costs that pass the
    check. -/
theorem Copes.of_isAmple {library : Library Float} {config : Config} {costs : Grid Float}
    (h : config.IsAmple costs.height costs.width)
    (hfits : ∀ bound, config.paddingSentinel.toDouble? = some bound → costs.Fits bound) :
    Method.padded.Copes library config costs :=
  .padded h.isInRange (h.isSteady hfits)

/-- An outcome whose matching lies inside a matrix, or a fault of a method at a matrix with
    something to match. -/
def Answers (library : Library Float) (config : Config) (costs : Grid Float) (method : Method) :
    Except Fault (Outcome Float) → Prop
  | .ok o => o.workerOf.Inside costs.height costs.width ∧ o.idle = o.workerOf.idle costs.height
  | .error fault => ¬ costs.isEmpty = true ∧ method.Failure library config costs fault

variable {library : Library Float} {costs : Grid Float} {config : Config}

theorem answers_ofMatching {method : Method} {M : Matching} {u v : List Float}
    (h : M.Inside costs.height costs.width) :
    Answers library config costs method (Outcome.ofMatching .double costs M u v) := by
  rcases h.exists_outcome .double u v with ⟨o, ho⟩
  rw [ho]
  exact Outcome.inside_of_ofMatching ho h.length

theorem padded_answers : Answers library config costs .padded
    (padded.solvePrepared (.doubles library) costs (Settings.ofConfig config)) := by
  by_cases hempty : costs.height = 0 ∨ costs.width = 0
  · simp only [solvePrepared, searchPrepared, hempty, if_true, Padded.solve]
    exact answers_ofMatching Matching.inside_unassigned
  have hcells : ¬ costs.isEmpty = true := fun h => hempty (costs.isEmpty_iff.mp h)
  rw [solvePrepared, searchPrepared_own _ _ hempty]
  simp only [Settings.ofConfig]
  -- The settings are read first, and then the search may not end.
  cases hpadding : settingDouble config.paddingSentinel with
  | error fault =>
    rcases settingDouble_error hpadding with rfl
    refine ⟨hcells, .setting fun hrange => ?_⟩
    rcases exists_settingDouble_iff.mpr hrange.1 with ⟨padding, h⟩
    exact absurd (hpadding.symm.trans h) (by simp)
  | ok padding =>
    cases hreach : settingDouble config.searchInfinity with
    | error fault =>
      rcases settingDouble_error hreach with rfl
      refine ⟨hcells, .setting fun hrange => ?_⟩
      rcases exists_settingDouble_iff.mpr hrange.2 with ⟨reach, h⟩
      exact absurd (hreach.symm.trans h) (by simp)
    | ok reach =>
      change Answers _ _ _ _ (Padded.solve .double costs costs.height costs.width padding reach)
      cases hfinal : Search.final .double (max costs.height costs.width)
          (Padded.cell costs padding) reach with
      | none =>
        have hsolve := Padded.solve_eq_endless hempty (Padded.exceeds_own costs) hfinal
        rw [hsolve]
        exact ⟨hcells, .endless fun hsteady =>
          (hsteady padding reach hpadding hreach).linksAfresh.solve_ne_endless hsolve⟩
      | some s =>
        rw [not_or] at hempty
        rw [Padded.solve_of_final hempty.1 hempty.2 hfinal]
        exact answers_ofMatching (Padded.inside_workerOf (by omega) s)

/-- A library on the costs fails, or its pairs do not all lie in the matrix. -/
theorem exact_answers : Answers library config costs .exact
    (Method.exact.solvePrepared (.doubles library) costs (Settings.ofConfig config)) := by
  by_cases hempty : costs.isEmpty = true
  · rw [solvePrepared, Library.matching, if_pos hempty]
    exact answers_ofMatching Matching.inside_unassigned
  have hmatching : (Tools.doubles library).matching costs = library.pairs costs >>= fun pairs =>
      if pairs.any fun x => costs.width ≤ x.2 then .error .outOfBounds
      else .ok (Matching.place costs.width pairs) := by
    rw [Library.matching, if_neg hempty]
    rfl
  rw [solvePrepared, hmatching]
  cases hpairs : library.pairs costs with
  | error fault => exact ⟨hempty, .pairs hpairs⟩
  | ok pairs =>
    by_cases hinside : ∀ x ∈ pairs, x.1 < costs.height ∧ x.2 < costs.width
    · have hany : ¬ (pairs.any fun x => costs.width ≤ x.2) = true := by
        simpa using fun w j hx => (hinside (w, j) hx).2
      simp only [bind, Except.bind, if_neg hany]
      exact answers_ofMatching (Matching.inside_place fun x hx => (hinside x hx).1)
    · have hbeside : exact.Failure library config costs .outOfBounds :=
        .beside hpairs (by simpa using hinside)
      by_cases hany : (pairs.any fun x => costs.width ≤ x.2) = true
      · simp only [bind, Except.bind, if_pos hany]
        exact ⟨hempty, hbeside⟩
      · simp only [bind, Except.bind, if_neg hany]
        -- A worker beyond the matrix may have been placed over, or is missed by the outcome.
        cases hplaced : (Tools.doubles library).plainOutcome costs
            (Matching.place costs.width pairs) with
        | ok o => exact Outcome.inside_of_ofMatching hplaced (Matching.length_place _ _)
        | error fault => exact ⟨hempty, Outcome.ofMatching_error hplaced ▸ hbeside⟩

theorem scaled_answers : Answers library config costs .scaled
    (scaled.solvePrepared (.doubles library) costs (Settings.ofConfig config)) := by
  rw [solvePrepared]
  by_cases hempty : costs.isEmpty = true
  · rw [Tools.scaledMatching, if_pos hempty]
    exact answers_ofMatching Matching.inside_unassigned
  cases hscale : config.costScale.toDouble? with
  | none =>
    have hfactor : settingDouble config.costScale = .error .tooLarge := by
      rw [settingDouble, hscale]
    simp only [Settings.ofConfig, Tools.scaledMatching, if_neg hempty, hfactor, bind, Except.bind]
    exact ⟨hempty, .factor hscale⟩
  | some factor =>
    have hfactor : settingDouble config.costScale = .ok factor :=
      settingDouble_eq_ok_iff.mpr hscale
    simp only [Settings.ofConfig, hfactor, Tools.scaledMatching_eq library hempty factor]
    cases hmates : library.mates (Square.ofGrid (costs.inWords factor)) with
    | error fault => exact ⟨hempty, .mates hscale hmates⟩
    | ok mates =>
      -- Of the columns of the square only real workers with real jobs are kept.
      refine answers_ofMatching (Matching.inside_place fun x hx => ?_)
      have hkept : x.1 < costs.height ∧ x.2 < costs.width := by
        simpa using List.of_mem_filter hx
      exact hkept.1

theorem exhaustive_answers : Answers library config costs .exhaustive
    (exhaustive.solvePrepared (.doubles library) costs (Settings.ofConfig config)) := by
  unfold solvePrepared
  by_cases hside : Exhaustive.maxSide < min costs.height costs.width
  · simp only [hside, if_true]
    refine ⟨fun h => ?_, .tooMany hside⟩
    rw [costs.isEmpty_iff] at h
    omega
  · simp only [hside, if_false]
    exact answers_ofMatching (Exhaustive.inside_matching _ _ costs)

/-- A method answers with a matching inside the matrix, or fails with one of its faults. -/
theorem solvePrepared_answers (method : Method) : Answers library config costs method
    (method.solvePrepared (.doubles library) costs (Settings.ofConfig config)) := by
  cases method with
  | padded => exact padded_answers
  | exact => exact exact_answers
  | scaled => exact scaled_answers
  | exhaustive => exact exhaustive_answers

/-- A method does not fail at what it copes with. -/
theorem Copes.not_failure {method : Method} {fault : Fault}
    (h : method.Copes library config costs) : ¬ method.Failure library config costs fault := by
  intro hfault
  cases h with
  | padded hrange hsteady =>
    cases hfault with
    | setting hno => exact hno hrange
    | endless hno => exact hno hsteady
  | exact hpairs hinside =>
    cases hfault with
    | pairs hfails => exact absurd (hpairs.symm.trans hfails) (by simp)
    | beside hother hbeside =>
      rcases Except.ok.inj (hpairs.symm.trans hother) with rfl
      rcases hbeside with ⟨x, hx, hout⟩
      exact hout (hinside x hx)
  | scaled hfactor hmates =>
    cases hfault with
    | factor hnone => exact absurd (hfactor.symm.trans hnone) (by simp)
    | mates hother hfails =>
      rcases Option.some.inj (hfactor.symm.trans hother) with rfl
      exact absurd (hmates.symm.trans hfails) (by simp)
  | exhaustive hside =>
    cases hfault with
    | tooMany hlt => exact absurd hside (Nat.not_le.mpr hlt)

end Method

end Roster
