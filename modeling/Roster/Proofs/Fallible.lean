import Roster.Fault

/-!
# Steps That Can Fail

What a computation in several steps answers is settled by its first step that fails. Over a
list, all answers are there if no item fails.

## Main definitions

* `AnswersIf`: An answer that depends on a condition.

## Theorems

* `bind_eq_ok_iff`, `map_eq_ok_iff`: Two steps succeed if both do.
* `guarded_eq_ok_iff`: A step behind a guard succeeds if the guard lets it pass.
* `bind_eq_error_iff`: Two steps fail as the first of them that fails.
* `toOption_eq_some_iff`: What is left of a success.
* `AnswersIf.bind`, `AnswersIf.mapM`: Several conditions, one fault.
* `mapM_eq_map`: The answers for all items of a list.
* `mapM_eq_error_iff`: A list fails as the first of its items that fails.
-/

namespace Roster

variable {ε α β : Type} {a : Except ε α} {f : α → Except ε β} {g : α → β} {b : β}

theorem bind_eq_ok_iff : a >>= f = .ok b ↔ ∃ x, a = .ok x ∧ f x = .ok b := by
  cases a with
  | error e => simp [bind, Except.bind]
  | ok x => simp [bind, Except.bind]

theorem bind_eq_error_iff {e : ε} :
    a >>= f = .error e ↔ a = .error e ∨ ∃ x, a = .ok x ∧ f x = .error e := by
  cases a with
  | error e' => simp [bind, Except.bind]
  | ok x => simp [bind, Except.bind]

/-- A step behind a guard succeeds if the guard lets it pass. -/
theorem guarded_eq_ok_iff {γ : Type} {p : Prop} [Decidable p] {e : ε} {stop : γ → Except ε β}
    {c : Except ε β} :
    (if p then throw e >>= stop else c) = .ok b ↔ ¬ p ∧ c = .ok b := by
  -- A guard that does not let pass leaves an error in front of all later steps.
  by_cases hp : p
  · rw [if_pos hp]
    exact iff_of_false nofun fun h => h.1 hp
  · rw [if_neg hp]
    exact (and_iff_right hp).symm

theorem map_eq_ok_iff : a.map g = .ok b ↔ ∃ x, a = .ok x ∧ g x = b := by
  cases a with
  | error e => simp [Except.map]
  | ok x => simp [Except.map]

theorem toOption_eq_some_iff {x : α} : a.toOption = some x ↔ a = .ok x := by
  cases a with
  | error e => simp [Except.toOption]
  | ok y => simp [Except.toOption]

theorem exists_of_isOk (h : a.isOk = true) : ∃ x, a = .ok x := by
  cases a with
  | error e => exact absurd h Bool.false_ne_true
  | ok x => exact ⟨x, rfl⟩

/-- There is an answer if a condition holds, and a fault if it does not. -/
def AnswersIf (p : Prop) (e : ε) (a : Except ε α) : Prop :=
  (p ∧ ∃ x, a = .ok x) ∨ (¬ p ∧ a = .error e)

namespace AnswersIf

variable {p q : Prop} {e : ε}

theorem ok (x : α) : AnswersIf True e (.ok x) := Or.inl ⟨trivial, x, rfl⟩

theorem congr (hpq : p ↔ q) (h : AnswersIf p e a) : AnswersIf q e a := by
  rw [AnswersIf, ← hpq]
  exact h

theorem ok_iff (h : AnswersIf p e a) : (∃ x, a = .ok x) ↔ p := by
  rcases h with ⟨hp, x, rfl⟩ | ⟨hp, rfl⟩
  · simp [hp]
  · simp [hp]

/-- Two steps with one fault need both of their conditions. -/
theorem bind (h : AnswersIf p e a) (hf : ∀ x, AnswersIf q e (f x)) :
    AnswersIf (p ∧ q) e (a >>= f) := by
  -- The second step is asked only if the first has an answer. As both have the same fault, it
  -- does not matter which of them is told.
  rcases h with ⟨hp, x, rfl⟩ | ⟨hp, rfl⟩
  · rcases hf x with ⟨hq, y, hy⟩ | ⟨hq, hy⟩
    · exact Or.inl ⟨⟨hp, hq⟩, y, hy⟩
    · exact Or.inr ⟨fun hboth => hq hboth.2, hy⟩
  · exact Or.inr ⟨fun hboth => hp hboth.1, rfl⟩

theorem map (h : AnswersIf p e a) : AnswersIf p e (a.map g) := by
  rcases h with ⟨hp, x, rfl⟩ | ⟨hp, rfl⟩
  · exact Or.inl ⟨hp, g x, rfl⟩
  · exact Or.inr ⟨hp, rfl⟩

/-- All items of a list with one fault need all of their conditions. -/
theorem mapM {p : α → Prop} {xs : List α} (h : ∀ x ∈ xs, AnswersIf (p x) e (f x)) :
    AnswersIf (∀ x ∈ xs, p x) e (xs.mapM f) := by
  induction xs with
  | nil => exact (ok []).congr (by simp)
  | cons x rest ih =>
      rw [List.mapM_cons, List.forall_mem_cons]
      -- The answers of the rest are put behind the first one, which cannot fail.
      refine (h x List.mem_cons_self).bind fun y => ?_
      have hrest := ih fun z hz => h z (List.mem_cons_of_mem _ hz)
      exact (hrest.bind fun ys => ok (y :: ys)).congr (and_iff_left trivial)

end AnswersIf

/-- If every item of a list has its answer, so has the list. -/
theorem mapM_eq_map {xs : List α} {g : α → β} (h : ∀ x ∈ xs, f x = .ok (g x)) :
    xs.mapM f = .ok (xs.map g) := by
  induction xs with
  | nil => rfl
  | cons x rest ih =>
      rw [List.mapM_cons, h x List.mem_cons_self, ih fun z hz => h z (List.mem_cons_of_mem _ hz)]
      rfl

/-- There is one answer for each item of a list. -/
theorem length_eq_of_mapM {xs : List α} {ys : List β} (h : xs.mapM f = .ok ys) :
    ys.length = xs.length := by
  induction xs generalizing ys with
  | nil =>
      rcases Except.ok.inj h with rfl
      rfl
  | cons x rest ih =>
      simp only [List.mapM_cons, bind_eq_ok_iff] at h
      rcases h with ⟨y, _, zs, hrest, h⟩
      rcases Except.ok.inj h with rfl
      rw [List.length_cons, List.length_cons, ih hrest]

/-- A list fails as the first of its items that fails. -/
theorem mapM_eq_error_iff {xs : List α} {e : ε} : xs.mapM f = .error e ↔
    ∃ before x after, xs = before ++ x :: after ∧ (∀ y ∈ before, ∃ b, f y = .ok b) ∧
      f x = .error e := by
  induction xs with
  | nil => simp [pure, Except.pure]
  | cons x rest ih =>
      -- Putting the first answer in front of the others does not fail.
      have hrest : ∀ b, (rest.mapM f >>= fun bs => pure (b :: bs)) = .error e ↔
          rest.mapM f = .error e := by
        intro b
        simp [bind_eq_error_iff, pure, Except.pure]
      rw [List.mapM_cons, bind_eq_error_iff]
      simp only [hrest, ih]
      constructor
      -- Either the first item fails, with nothing before it, or it is one of those before.
      · rintro (hx | ⟨b, hb, before, y, after, rfl, hbefore, hy⟩)
        · exact ⟨[], x, rest, rfl, by simp, hx⟩
        · exact ⟨x :: before, y, after, rfl, List.forall_mem_cons.mpr ⟨⟨b, hb⟩, hbefore⟩, hy⟩
      · rintro ⟨before, y, after, hparts, hbefore, hy⟩
        cases before with
        | nil =>
            rcases List.cons.inj hparts with ⟨rfl, _⟩
            exact Or.inl hy
        | cons z before =>
            rcases List.cons.inj hparts with ⟨rfl, hrest⟩
            rcases List.forall_mem_cons.mp hbefore with ⟨⟨b, hb⟩, hlater⟩
            exact Or.inr ⟨b, hb, before, y, after, hrest, hlater, hy⟩

end Roster
