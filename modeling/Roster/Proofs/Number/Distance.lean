import Roster.Proofs.Number.WholeArithmetic

/-!
# Distances of Doubles

The distance of two doubles is the amount of their difference. An amount is zero or above
zero, unless it is no number, and a double has no distance from itself but that.

## Theorems

* `Binary64.unpack_abs`: An amount is made of the same digits.
* `Binary64.abs_eq_zero`: An amount that does not lie above zero is zero.
* `Binary64.not_lt_abs_sub_self`: A double lies at no distance from itself.
-/

namespace Roster

namespace Binary64

open Float.Model (Format UnpackedFloat)
open Float.Model.UnpackedFloat (Sign packComponents)

section

variable {s : Sign} {e : BitVec 11} {m : BitVec 52}

theorem abs_unpack_packComponents :
    (UnpackedFloat.unpack Format.binary64 (packComponents Format.binary64 s e m)).abs =
      UnpackedFloat.unpack Format.binary64 (packComponents Format.binary64 .positive e m) := by
  unfold UnpackedFloat.unpack
  simp only [UnpackedFloat.unpackExponent_packComponents,
    UnpackedFloat.unpackMantissa_packComponents, UnpackedFloat.unpackSign_packComponents,
    Sign.ofBitVec_toBitVec]
  split
  · split <;> rfl
  · split
    · split <;> rfl
    · rfl

/-- The one pattern for what is no number has no sign to lose. -/
theorem valid_positive (h : Format.binary64.Valid (packComponents Format.binary64 s e m)) :
    Format.binary64.Valid (packComponents Format.binary64 .positive e m) := by
  refine ⟨fun he hm => ?_⟩
  rw [UnpackedFloat.unpackExponent_packComponents] at he
  rw [UnpackedFloat.unpackMantissa_packComponents] at hm
  have hnan := h.eq_packedNaN (by rwa [UnpackedFloat.unpackExponent_packComponents])
    (by rwa [UnpackedFloat.unpackMantissa_packComponents])
  have hexponent := congrArg UnpackedFloat.unpackExponent hnan
  have hmantissa := congrArg UnpackedFloat.unpackMantissa hnan
  unfold UnpackedFloat.packedNaN at hexponent hmantissa ⊢
  simp only [UnpackedFloat.unpackExponent_packComponents,
    UnpackedFloat.unpackMantissa_packComponents] at hexponent hmantissa
  rw [hexponent, hmantissa]

end

variable {x : Float}

theorem unpack_abs (x : Float) : x.abs.toModel.unpack = x.toModel.unpack.abs := by
  rcases x with ⟨x⟩
  rcases exists_fields x.toBits.toBitVec with ⟨s, e, m, hbits⟩
  have hunpack : x.unpack =
      UnpackedFloat.unpack Format.binary64 (packComponents Format.binary64 s e m) :=
    unpack_ofModel hbits
  have hvalid := x.valid
  rw [hbits] at hvalid
  change UnpackedFloat.unpack Format.binary64 (UnpackedFloat.pack Format.binary64 x.unpack.abs) =
    x.unpack.abs
  rw [hunpack, abs_unpack_packComponents,
    UnpackedFloat.pack_unpack_of_valid (valid_positive hvalid)]

theorem abs_eq_zero (hnumber : x.abs.isNaN = false) (h : ¬ 0.0 < x.abs) : x.abs = 0.0 := by
  have hunpack := unpack_abs x
  have hpack : x.abs = .ofModel (.pack x.toModel.unpack.abs) := rfl
  rw [lt_iff_compare, hunpack] at h
  change x.abs.toModel.unpack.isNaN = false at hnumber
  rw [hunpack] at hnumber
  rw [hpack]
  generalize x.toModel.unpack = u at h hnumber
  -- What is no number has been excluded, and all else but zero lies above zero.
  cases u with
  | infinity s => exact absurd rfl h
  | notANumber => exact absurd hnumber (by decide)
  | zero s => rfl
  | finite s m e hm => exact absurd rfl h

/-- The difference of a double from itself is zero, or no number if the double is infinite. -/
theorem sub_self_cases (u : UnpackedFloat) :
    u.sub Format.binary64 u = .notANumber ∨ u.sub Format.binary64 u = .zero .positive := by
  rcases u with (_ | _) | _ | (_ | _) | ⟨s, m, e, hm⟩
  · exact Or.inl rfl
  · exact Or.inl rfl
  · exact Or.inl rfl
  · exact Or.inr rfl
  · exact Or.inr rfl
  · right
    simp [UnpackedFloat.sub, UnpackedFloat.normalize]

theorem not_lt_abs_sub_self (x : Float) : ¬ 0.0 < (x - x).abs := by
  have hsub : x - x =
      .ofModel (.pack (x.toModel.unpack.sub Format.binary64 x.toModel.unpack)) := rfl
  rw [hsub]
  rcases sub_self_cases x.toModel.unpack with h | h
  · rw [h]
    decide +kernel
  · rw [h]
    decide +kernel

end Binary64

end Roster
