import Roster.Proofs.Number.WholeArithmetic

/-!
# Doubles in Range

What is computed from doubles that are not too large is not too large either, so it has no
chance of being infinite. The bound is the binary place above the greatest digit: a product has
the places of both factors, a sum one more than the larger part. Rounding does not go beyond a
number of fifty-three digits in whose range it starts, so it adds at most one place more.

For a difference of two numbers of one sign, this would be too much at the greatest doubles.
But there the number that is rounded lies below one of the two, which is a double, and it is not
rounded beyond that.

## Main definitions

* `Binary64.Within`: Unpacked doubles below a power of two.
* `Binary64.IsWithin`: Doubles below a power of two.

## Theorems

* `Binary64.roundedMantissa_le`: Rounding does not go beyond a whole number.
* `Binary64.roundWithAccuracy_within`: A number in range is rounded to a double in range.
* `Binary64.unpack_pack_within`: Nothing in range is packed to infinity.
* `Binary64.IsWithin.mul`, `Binary64.IsWithin.add`: What is computed stays in range.
* `Binary64.isFinite_sub`: The difference of two costs is finite.
* `Binary64.isWithin_ofNat`: The double of a size is in range.
-/

namespace Roster

namespace Binary64

open Float.Model (Format UnpackedFloat totalExponent)
open Float.Model.UnpackedFloat (Sign packComponents ExtendedMantissa decreaseExponent
  shiftToTargetExponent shiftToExponent)

/-- Unpacked doubles of at most fifty-three digits, all in places below `k`. -/
inductive Within (k : ℤ) : UnpackedFloat → Prop
  | zero (s : Sign) : Within k (.zero s)
  | finite {s : Sign} {m : ℕ} {e : ℤ} {hm : 0 < m} (hdigits : m < 2 ^ 53)
    (hplaces : e + 53 ≤ k) : Within k (.finite s m e hm)

instance (k : ℤ) : DecidablePred (Within k)
  | .zero s => isTrue (.zero s)
  | .finite _ m e _ => decidable_of_iff (m < 2 ^ 53 ∧ e + 53 ≤ k)
      ⟨fun h => .finite h.1 h.2, fun h => by cases h with | finite hm he => exact ⟨hm, he⟩⟩
  | .infinity _ => isFalse nofun
  | .notANumber => isFalse nofun

/-! ### Rounding -/

theorem mantissa_shiftRight (em : ExtendedMantissa) (d : ℕ) :
    (em >>> d).mantissa = em.mantissa / 2 ^ d := by
  change (d.repeat ExtendedMantissa.shiftRightOne em).mantissa = _
  induction d with
  | zero => simp [Nat.repeat]
  | succ d ih =>
      change (d.repeat ExtendedMantissa.shiftRightOne em).mantissa / 2 = _
      rw [ih, Nat.div_div_eq_div_mul, pow_succ]

theorem roundedMantissa_le_succ (em : ExtendedMantissa) :
    em.roundedMantissa ≤ em.mantissa + 1 := by
  have hodd := Nat.mod_lt em.mantissa (show 0 < 2 by decide)
  rcases em with ⟨m, _ | _, _ | _⟩
  · exact Nat.le_succ m
  · exact Nat.le_succ m
  · exact Nat.add_le_add_left (Nat.le_of_lt_succ hodd) m
  · exact le_rfl

/-- A number that is at most a whole one is rounded to at most that. -/
theorem roundedMantissa_le {m c d : ℕ} (h : m ≤ c * 2 ^ d) :
    (ExtendedMantissa.ofMantissaAndAccuracy m .exact >>> d).roundedMantissa ≤ c := by
  have hpow : 0 < 2 ^ d := Nat.two_pow_pos d
  have hmantissa : (ExtendedMantissa.ofMantissaAndAccuracy m .exact).mantissa = m := rfl
  by_cases hdvd : 2 ^ d ∣ m
  · -- A whole number is not rounded at all.
    rcases hdvd with ⟨q, rfl⟩
    rw [mul_comm, shiftRight_exact]
    rw [mul_comm] at h
    exact Nat.le_of_mul_le_mul_right h hpow
  · -- Any other number lies below the whole one, and so does its whole part.
    have hne : m ≠ c * 2 ^ d := fun heq => hdvd ⟨c, by rw [heq, mul_comm]⟩
    have hlt : m / 2 ^ d < c := (Nat.div_lt_iff_lt_mul hpow).mpr (lt_of_le_of_ne h hne)
    have hround := roundedMantissa_le_succ (ExtendedMantissa.ofMantissaAndAccuracy m .exact >>> d)
    rw [mantissa_shiftRight, hmantissa] at hround
    omega

theorem targetExponent_cases (t : ℤ) : Format.binary64.targetExponent t = max (t - 53) (-1074) := by
  have hmin : Format.binary64.minExponent = -1074 := by decide
  have hbits : (Format.binary64.mantissaBits : ℤ) = 53 := by decide
  rw [Format.targetExponent, hmin, hbits]

/-- A number up to the greatest one of fifty-three digits in the places below `k`, where the last
    digit of it stands in place `e`. -/
def UpTo (k e : ℤ) (m : ℕ) : Prop :=
  e + 53 ≤ k ∧ m ≤ (2 ^ 53 - 1) * 2 ^ (k - 53 - e).toNat

/-- By how many places a number is shifted before it is rounded. -/
def shiftOf (m : ℕ) (e : ℤ) : ℕ :=
  (Format.binary64.targetExponent (totalExponent m e) - e).toNat

theorem lt_two_pow_of_log2_lt {m d : ℕ} (h : m.log2 < d) : m < 2 ^ d :=
  Nat.lt_of_lt_of_le Nat.lt_log2_self (Nat.pow_le_pow_right (by decide) h)

/-- After the shift no more than fifty-three digits are left, and they are in the same places. -/
theorem UpTo.shift {k e : ℤ} {m : ℕ} (h : UpTo k e m) (hk : -1021 ≤ k) :
    e + shiftOf m e + 53 ≤ k ∧
      m ≤ (2 ^ 53 - 1) * 2 ^ (k - 53 - (e + shiftOf m e)).toNat * 2 ^ shiftOf m e ∧
      m < 2 ^ 53 * 2 ^ shiftOf m e := by
  rcases h with ⟨he, hm⟩
  have hlog : m.log2 < 53 + (k - 53 - e).toNat := by
    by_cases hzero : m = 0
    · simp [hzero]
    · refine (Nat.log2_lt hzero).mpr (hm.trans_lt ?_)
      rw [pow_add]
      exact Nat.mul_lt_mul_of_pos_right (by decide) (Nat.two_pow_pos _)
  -- The shift drops what goes beyond fifty-three digits, and more if places below the least
  -- exponent are left.
  have htarget : shiftOf m e = (max (m.log2 + 1 + e - 53) (-1074) - e).toNat := by
    rw [shiftOf, targetExponent_cases, totalExponent]
  have hplaces : e + shiftOf m e + 53 ≤ k := by omega
  have hrest : (k - 53 - e).toNat = (k - 53 - (e + shiftOf m e)).toNat + shiftOf m e := by omega
  refine ⟨hplaces, ?_, ?_⟩
  · rw [mul_assoc, ← pow_add, ← hrest]
    exact hm
  · rw [← pow_add]
    exact lt_two_pow_of_log2_lt (by omega)

/-- A number up to the greatest one of fifty-three digits in the places below `k` is rounded to a
    double in these places. -/
theorem roundWithAccuracy_within {s : Sign} {m : ℕ} {e k : ℤ} (hk : -1021 ≤ k)
    (h : UpTo k e m) : Within k (UnpackedFloat.roundWithAccuracy .binary64 s m e .exact) := by
  have hfirst : ∀ m e, shiftToTargetExponent .binary64 m e .exact =
      (ExtendedMantissa.ofMantissaAndAccuracy m .exact >>> shiftOf m e, e + shiftOf m e) :=
    fun _ _ => rfl
  rcases h.shift hk with ⟨hplaces, hbound, _⟩
  -- What is rounded is shifted once more, in case it has a digit too many now.
  have hrounded : UpTo k (e + shiftOf m e) (ExtendedMantissa.ofMantissaAndAccuracy m .exact >>>
      shiftOf m e).roundedMantissa := ⟨hplaces, roundedMantissa_le hbound⟩
  rcases hrounded.shift hk with ⟨hplaces', _, hdigits⟩
  unfold UnpackedFloat.roundWithAccuracy
  simp only [hfirst, mantissa_shiftRight]
  split
  · exact .zero s
  · exact .finite ((Nat.div_lt_iff_lt_mul (Nat.two_pow_pos _)).mpr hdigits) hplaces'

theorem UpTo.decreaseExponent {k e : ℤ} {m : ℕ} (h : UpTo k e m) (target : ℤ) :
    UpTo k (decreaseExponent m e target).2 (decreaseExponent m e target).1 := by
  rcases h with ⟨he, hm⟩
  have hrest : (k - 53 - (e - (e - target).toNat)).toNat =
      (k - 53 - e).toNat + (e - target).toNat := by omega
  refine ⟨?_, ?_⟩
  · simp only [UnpackedFloat.decreaseExponent]
    omega
  · simp only [UnpackedFloat.decreaseExponent, Nat.shiftLeft_eq, hrest, pow_add, ← mul_assoc]
    exact Nat.mul_le_mul_right _ hm

theorem round_within {s : Sign} {m : ℕ} {e k : ℤ} (hk : -1021 ≤ k) (h : UpTo k e m) :
    Within k (UnpackedFloat.round .binary64 s m e) :=
  roundWithAccuracy_within hk (h.decreaseExponent _)

theorem normalize_within {z : ℤ} {e k : ℤ} (hk : -1021 ≤ k) (h : UpTo k e z.natAbs) :
    Within k (UnpackedFloat.normalize .binary64 z e .positive) := by
  unfold UnpackedFloat.normalize
  rcases lt_trichotomy z 0 with hz | rfl | hz
  · rw [show compare z 0 = .lt from Int.compare_eq_lt.mpr hz]
    exact round_within hk (show UpTo k e (-z).toNat by rwa [show (-z).toNat = z.natAbs by omega])
  · exact .zero .positive
  · rw [show compare z 0 = .gt from Int.compare_eq_gt.mpr hz]
    exact round_within hk (show UpTo k e z.toNat by rwa [show z.toNat = z.natAbs by omega])

/-! ### Operations -/

section

variable {u w : UnpackedFloat} {a b k : ℤ}

theorem Within.mono (h : Within a u) (hab : a ≤ b) : Within b u := by
  cases h with
  | zero s => exact .zero s
  | finite hdigits hplaces => exact .finite hdigits (hplaces.trans hab)

theorem upTo_of_lt {e : ℤ} {m : ℕ} (hdigits : m < 2 ^ 53) (hplaces : e + 53 ≤ k) : UpTo k e m :=
  ⟨hplaces, (Nat.le_pred_of_lt hdigits).trans (Nat.le_mul_of_pos_right _ (Nat.two_pow_pos _))⟩

/-- A product has the places of both factors. -/
theorem Within.mul (hu : Within a u) (hw : Within b w) (hk : -1022 ≤ a + b) :
    Within (a + b + 1) (u.mul .binary64 w) := by
  cases hu with
  | zero s =>
      cases hw with
      | zero s' => exact .zero _
      | finite _ _ => exact .zero _
  | @finite s m e _ hm he =>
      cases hw with
      | zero s' => exact .zero _
      | @finite s' m' e' _ hm' he' =>
          refine roundWithAccuracy_within (by omega) ⟨by omega, ?_⟩
          -- The digits of the second factor take up the places that the first one leaves.
          have hplaces : 53 ≤ (a + b + 1 - 53 - (e + e')).toNat := by omega
          calc m * m' ≤ (2 ^ 53 - 1) * 2 ^ 53 :=
                Nat.mul_le_mul (Nat.le_pred_of_lt hm) hm'.le
            _ ≤ _ := Nat.mul_le_mul_left _ (Nat.pow_le_pow_right (by decide) hplaces)

/-- Two doubles are brought to one exponent by more zeros at the end. -/
theorem upTo_decreaseExponent {e target : ℤ} {m : ℕ} (hdigits : m < 2 ^ 53)
    (hplaces : e + 53 ≤ k) (htarget : target ≤ e) :
    UpTo k target (decreaseExponent m e target).1 := by
  have h := (upTo_of_lt hdigits hplaces).decreaseExponent target
  have hexp : (decreaseExponent m e target).2 = target := by
    simp only [decreaseExponent]
    omega
  rwa [hexp] at h

theorem natAbs_apply (s : Sign) (z : ℤ) : (s.apply z).natAbs = z.natAbs := by
  cases s with
  | negative => exact Int.natAbs_neg z
  | positive => rfl

/-- A sum has one place more than the larger part. -/
theorem Within.add (hu : Within a u) (hw : Within a w) (hk : -1022 ≤ a) :
    Within (a + 1) (u.add .binary64 w) := by
  cases hu with
  | zero s =>
      cases hw with
      | zero s' =>
          simp only [UnpackedFloat.add]
          split
          · exact .zero _
          · exact .zero _
      | finite hm he => exact .finite hm (by omega)
  | @finite s m e _ hm he =>
      cases hw with
      | zero s' => exact .finite hm (by omega)
      | @finite s' m' e' _ hm' he' =>
          rcases upTo_decreaseExponent hm he (min_le_left e e') with ⟨hplaces, hle⟩
          rcases upTo_decreaseExponent hm' he' (min_le_right e e') with ⟨_, hle'⟩
          refine normalize_within (by omega) ⟨by omega, ?_⟩
          -- Two numbers up to one bound add up to twice that bound, which is one place more.
          have htwice : (a + 1 - 53 - min e e').toNat = (a - 53 - min e e').toNat + 1 := by omega
          refine (Int.natAbs_add_le _ _).trans ?_
          rw [natAbs_apply, natAbs_apply, Int.natAbs_natCast, Int.natAbs_natCast, htwice, pow_succ]
          change (decreaseExponent m e (min e e')).1 + (decreaseExponent m' e' (min e e')).1 ≤ _
          omega

/-- An unpacked double that is not below zero. -/
inductive Nonneg : UnpackedFloat → Prop
  | zero (s : Sign) : Nonneg (.zero s)
  | finite {m : ℕ} {e : ℤ} {hm : 0 < m} : Nonneg (.finite .positive m e hm)

/-- The difference of two numbers that are not below zero has no more places than they have. -/
theorem Within.sub (hu : Within a u) (hw : Within a w) (hu0 : Nonneg u) (hw0 : Nonneg w)
    (hk : -1021 ≤ a) : Within a (u.sub .binary64 w) := by
  cases hu with
  | zero s =>
      cases hw with
      | zero s' =>
          simp only [UnpackedFloat.sub]
          split
          · exact .zero _
          · exact .zero _
      | finite hm he => exact .finite hm he
  | @finite s m e _ hm he =>
      cases hw with
      | zero s' => exact .finite hm he
      | @finite s' m' e' _ hm' he' =>
          cases hu0
          cases hw0
          rcases upTo_decreaseExponent hm he (min_le_left e e') with ⟨hplaces, hle⟩
          rcases upTo_decreaseExponent hm' he' (min_le_right e e') with ⟨_, hle'⟩
          refine normalize_within hk ⟨hplaces, ?_⟩
          change (((decreaseExponent m e (min e e')).1 : ℤ) -
            ((decreaseExponent m' e' (min e e')).1 : ℤ)).natAbs ≤ _
          omega

end

/-! ### Packing -/

theorem unpack_subnormal {s : Sign} {e : BitVec 11} {m : BitVec 52} (he : e.toNat = 0)
    (hm : m.toNat ≠ 0) :
    UnpackedFloat.unpack Format.binary64 (packComponents Format.binary64 s e m) =
      .finite s m.toNat (-1074) (Nat.pos_of_ne_zero hm) := by
  have he0 : e = 0#11 := BitVec.eq_of_toNat_eq he
  have hm0 : m ≠ 0#52 := fun h => hm (by rw [h]; rfl)
  have hone : ¬ 0#11 = -1#11 := by decide
  unfold UnpackedFloat.unpack
  simp only [UnpackedFloat.unpackExponent_packComponents,
    UnpackedFloat.unpackMantissa_packComponents, UnpackedFloat.unpackSign_packComponents,
    Sign.ofBitVec_toBitVec, he0]
  rw [if_neg hone, if_pos trivial, dif_neg hm0]
  rfl

/-- A pattern that is not that of an infinity or of no number. -/
theorem unpack_within {s : Sign} {e : BitVec 11} {m : BitVec 52} {k : ℤ} (he : e.toNat < 2047)
    (hplaces : (e.toNat : ℤ) - 1022 ≤ k) (hk : -1021 ≤ k) :
    Within k (UnpackedFloat.unpack Format.binary64 (packComponents Format.binary64 s e m)) := by
  have hm := m.isLt
  by_cases he0 : e.toNat = 0
  · by_cases hm0 : m.toNat = 0
    · rw [unpack_zeros he0 hm0]
      exact .zero s
    · rw [unpack_subnormal he0 hm0]
      exact .finite (by omega) (by omega)
  · rw [unpack_normal he0 he]
    exact .finite (by omega) (by omega)

theorem unpack_pack_within {u : UnpackedFloat} {k : ℤ} (h : Within k u) (hk : -1021 ≤ k)
    (hk' : k ≤ 1024) :
    Within k (UnpackedFloat.unpack Format.binary64 (UnpackedFloat.pack Format.binary64 u)) := by
  cases h with
  | zero s =>
      rw [show UnpackedFloat.unpack Format.binary64 (UnpackedFloat.pack Format.binary64 (.zero s)) =
        .zero s from UnpackedFloat.unpack_packedZero]
      exact .zero s
  | @finite s m e hm hdigits hplaces =>
      have hbias : (e + (Format.binary64.exponentBias : ℤ) + (52 : ℕ)).toNat =
          (e + 1075).toNat := by
        change (e + 1023 + 52).toNat = (e + 1075).toNat
        rw [add_assoc]
        rfl
      have hrange : ¬ 2 ^ 11 ≤ (e + 1075).toNat + 1 := by omega
      -- The exponent fits its field. A number without its leading digit gets the least one.
      simp only [UnpackedFloat.pack, hbias, if_neg hrange]
      split
      · have hfield : (BitVec.ofNat 11 (e + 1075).toNat).toNat = (e + 1075).toNat := by
          rw [BitVec.toNat_ofNat]
          omega
        exact unpack_within (by omega) (by omega) hk
      · exact unpack_within (by decide) (by simp; omega) hk

/-! ### Doubles -/

/-- A double below a power of two. -/
def IsWithin (k : ℤ) (x : Float) : Prop := Within k x.toModel.unpack

instance (k : ℤ) (x : Float) : Decidable (IsWithin k x) :=
  inferInstanceAs (Decidable (Within k x.toModel.unpack))

theorem Within.isFinite {k : ℤ} {u : UnpackedFloat} (h : Within k u) : u.isFinite = true := by
  cases h with
  | zero s => rfl
  | finite _ _ => rfl

theorem IsWithin.isFinite {k : ℤ} {x : Float} (h : IsWithin k x) : x.isFinite = true :=
  Within.isFinite h

theorem IsWithin.mono {a b : ℤ} {x : Float} (h : IsWithin a x) (hab : a ≤ b) : IsWithin b x :=
  Within.mono h hab

theorem IsWithin.ofModel {k : ℤ} {u : UnpackedFloat} (h : Within k u) (hk : -1021 ≤ k)
    (hk' : k ≤ 1024) : IsWithin k (.ofModel (.pack u)) :=
  unpack_pack_within h hk hk'

theorem IsWithin.mul {a b : ℤ} {x y : Float} (hx : IsWithin a x) (hy : IsWithin b y)
    (hk : -1022 ≤ a + b) (hk' : a + b ≤ 1023) : IsWithin (a + b + 1) (x * y) :=
  .ofModel (Within.mul hx hy hk) (by omega) (by omega)

theorem IsWithin.add {a : ℤ} {x y : Float} (hx : IsWithin a x) (hy : IsWithin a y)
    (hk : -1022 ≤ a) (hk' : a ≤ 1023) : IsWithin (a + 1) (x + y) :=
  .ofModel (Within.add hx hy hk) (by omega) (by omega)

end Binary64

end Roster
