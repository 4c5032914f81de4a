import Mathlib
import Roster.Number.Scalar

/-!
# The Order of Doubles

Doubles that are numbers are compared by a key: the class first, then the exponent, then
the mantissa, and both of these the other way round below zero. So the comparison of
doubles is that of a linear order, apart from the value that is no number, which is neither
below nor above anything.

## Main definitions

* `Binary64.key?`: The key of a double that is a number.

## Theorems

* `Binary64.lt_iff`, `Binary64.le_iff`: Doubles compare as their keys.
* `Binary64.lt_of_lt_of_le`, `Binary64.lt_of_le_of_lt`: The order of doubles is transitive.
* `Binary64.not_lt_iff`: Two numbers are always in order.
-/

namespace Roster

namespace Binary64

open Float.Model (UnpackedFloat)
open Float.Model.UnpackedFloat (Sign)

/-- The class, the exponent and the mantissa of a number. -/
abbrev Key : Type := ℤ ×ₗ ℤ ×ₗ ℤ

/-- The key of an unpacked double, if it is a number. -/
def unpackedKey? : UnpackedFloat → Option Key
  | .notANumber => none
  | .infinity .negative => some (toLex (-2, toLex (0, 0)))
  | .finite .negative m e _ => some (toLex (-1, toLex (-e, -m)))
  | .zero _ => some (toLex (0, toLex (0, 0)))
  | .finite .positive m e _ => some (toLex (1, toLex (e, m)))
  | .infinity .positive => some (toLex (2, toLex (0, 0)))

/-- The key of a double that is a number. -/
def key? (x : Float) : Option Key := unpackedKey? x.toModel.unpack

theorem compare_toLex (a b c d e f : ℤ) :
    compare (toLex (a, toLex (b, c)) : Key) (toLex (d, toLex (e, f))) =
      (compare a d).then ((compare b e).then (compare c f)) := by
  rw [Prod.Lex.compare_def]
  rfl

theorem compare_neg (a b : ℤ) : compare (-a) (-b) = (compare a b).swap := by
  have hanti : StrictAnti fun k : ℤ => -k := fun _ _ h => neg_lt_neg h
  rw [← cmp_eq_compare, ← cmp_eq_compare, cmp_swap]
  exact hanti.cmp_map_eq a b

theorem compare_natCast (m n : ℕ) : compare (m : ℤ) (n : ℤ) = compare m n := by
  have hmono : StrictMono fun k : ℕ => (k : ℤ) := fun _ _ h => Int.ofNat_lt.mpr h
  rw [← cmp_eq_compare, ← cmp_eq_compare]
  exact hmono.cmp_map_eq m n

/-- Unpacked doubles compare as their keys. -/
theorem unpacked_compare (x y : UnpackedFloat) :
    x.compare y = (unpackedKey? x).bind fun a => (unpackedKey? y).map (compare a) := by
  rcases x with (_ | _) | _ | _ | ⟨_ | _, m, e, hm⟩ <;>
  rcases y with (_ | _) | _ | _ | ⟨_ | _, m', e', hm'⟩ <;>
  -- Two classes are told apart by computation; within a class the mantissas are compared.
  first
  | rfl
  | simp only [unpackedKey?, Option.bind_some, Option.map_some, compare_toLex, compare_neg,
      compare_natCast, UnpackedFloat.compare, Ordering.swap_then]
    rfl

variable {x y z : Float}

theorem lt_iff_compare : x < y ↔ x.toModel.unpack.compare y.toModel.unpack = some .lt := by
  change decide (x.toModel < y.toModel) = true ↔ _
  rw [decide_eq_true_iff]
  exact beq_iff_eq

/-- A double lies below another if its key does. -/
theorem lt_iff : x < y ↔ ∃ a b, key? x = some a ∧ key? y = some b ∧ a < b := by
  rw [lt_iff_compare, unpacked_compare, ← key?, ← key?]
  cases key? x with
  | none => simp
  | some a =>
    cases key? y with
    | none => simp
    | some b => simpa using compare_lt_iff_lt

theorem le_iff_compare :
    x ≤ y ↔ (x.toModel.unpack.compare y.toModel.unpack).any Ordering.isLE = true := by
  change decide (x.toModel ≤ y.toModel) = true ↔ _
  rw [decide_eq_true_iff]
  rfl

/-- A double is at most another if its key is. -/
theorem le_iff : x ≤ y ↔ ∃ a b, key? x = some a ∧ key? y = some b ∧ a ≤ b := by
  rw [le_iff_compare, unpacked_compare, ← key?, ← key?]
  cases key? x with
  | none => simp
  | some a =>
    cases key? y with
    | none => simp
    | some b => simpa [Ordering.isLE_iff_ne_gt] using compare_le_iff_le

theorem lt_of_lt_of_le (h : x < y) (h' : y ≤ z) : x < z := by
  rcases lt_iff.mp h with ⟨a, b, ha, hb, hab⟩
  rcases le_iff.mp h' with ⟨b', c, hb', hc, hbc⟩
  rw [hb, Option.some.injEq] at hb'
  exact lt_iff.mpr ⟨a, c, ha, hc, hab.trans_le (hb' ▸ hbc)⟩

theorem lt_of_le_of_lt (h : x ≤ y) (h' : y < z) : x < z := by
  rcases le_iff.mp h with ⟨a, b, ha, hb, hab⟩
  rcases lt_iff.mp h' with ⟨b', c, hb', hc, hbc⟩
  rw [hb, Option.some.injEq] at hb'
  exact lt_iff.mpr ⟨a, c, ha, hc, hab.trans_lt (hb' ▸ hbc)⟩

/-- Two numbers are always in order, one way or the other. -/
theorem not_lt_iff (hx : (key? x).isSome) (hy : (key? y).isSome) : ¬ x < y ↔ y ≤ x := by
  rcases Option.isSome_iff_exists.mp hx with ⟨a, ha⟩
  rcases Option.isSome_iff_exists.mp hy with ⟨b, hb⟩
  simp [le_iff, lt_iff, ha, hb]

theorem not_le_iff (hx : (key? x).isSome) (hy : (key? y).isSome) : ¬ x ≤ y ↔ y < x := by
  rw [← not_lt_iff hy hx, not_not]

theorem le_of_lt (h : x < y) : x ≤ y := by
  rcases lt_iff.mp h with ⟨a, b, ha, hb, hab⟩
  exact le_iff.mpr ⟨a, b, ha, hb, hab.le⟩

/-- What lies below something is a number. -/
theorem isSome_key?_of_lt (h : x < y) : (key? x).isSome := by
  rcases lt_iff.mp h with ⟨a, _, ha, _, _⟩
  rw [ha, Option.isSome_some]

/-- All doubles but one are numbers. -/
theorem isSome_key?_iff : (key? x).isSome ↔ x.isNaN = false := by
  have hnan : x.isNaN = x.toModel.unpack.isNaN := rfl
  rw [hnan, key?]
  rcases x.toModel.unpack with (_ | _) | _ | _ | ⟨_ | _, m, e, hm⟩ <;>
    simp [unpackedKey?, UnpackedFloat.isNaN]

/-- A finite double is a number. -/
theorem isSome_key?_of_isFinite (h : x.isFinite = true) : (key? x).isSome := by
  have hfinite : x.toModel.unpack.isFinite = true := h
  rw [key?]
  rcases hu : x.toModel.unpack with (_ | _) | _ | _ | ⟨_ | _, m, e, hm⟩ <;>
  first
  | rfl
  | rw [hu] at hfinite
    exact absurd hfinite (by decide)

end Binary64

end Roster
