import Mathlib
import Roster.Number.Binary64

/-!
# Whole Numbers as Doubles

A double holds every whole number of at most fifty-three binary digits, and in one way only:
its digits are filled up with zeros until there are fifty-three of them, and the exponent takes
the zeros back. Only zero is held in two ways, with either sign.

So it does not matter how a double came to have a whole value. `HoldsWhole` says what it is
made of, and there the arithmetic of doubles can be followed.

## Main definitions

* `Binary64.unpackedWhole`: A whole number with its digits filled up.
* `Binary64.ofWhole`: A whole number as a double.
* `Binary64.HoldsWhole`: Unpacked doubles that hold a whole number.

## Theorems

* `Binary64.content_ofModel`, `Binary64.unpack_normal`: A pattern by its fields.
* `Binary64.toRat?_ofWhole`: The value of a whole number as a double is the whole number.
* `Binary64.holdsWhole_of_toRat?`: A double of a whole value holds it.
-/

namespace Roster

namespace Binary64

open Float.Model (Format UnpackedFloat)
open Float.Model.UnpackedFloat (Sign packComponents)

/-! ### The fields of a pattern -/

theorem toNat_packComponents (s : Sign) (e : BitVec 11) (m : BitVec 52) :
    (packComponents Format.binary64 s e m).toNat =
      (s.toBitVec.toNat * 2 ^ 11 + e.toNat) * 2 ^ 52 + m.toNat := by
  have hinner : (s.toBitVec ++ e).toNat = s.toBitVec.toNat * 2 ^ 11 + e.toNat := by
    rw [BitVec.toNat_append, ← Nat.shiftLeft_add_eq_or_of_lt e.isLt, Nat.shiftLeft_eq]
  have houter : (s.toBitVec ++ e ++ m).toNat = (s.toBitVec ++ e).toNat * 2 ^ 52 + m.toNat := by
    rw [BitVec.toNat_append, ← Nat.shiftLeft_add_eq_or_of_lt m.isLt, Nat.shiftLeft_eq]
  rw [← hinner]
  exact houter

/-- The content of a pattern by its fields. -/
theorem content_ofModel {x : Float.Model} {s : Sign} {e : BitVec 11} {m : BitVec 52}
    (hx : x.toBits.toBitVec = packComponents Format.binary64 s e m) : content (.ofModel x) =
      if e.toNat = 2047 then if m.toNat = 0 then .infinite (s == .negative) else .nan
      else if e.toNat = 0 then .finite (s == .negative) m.toNat (-1074)
      else .finite (s == .negative) (m.toNat + 2 ^ 52) (e.toNat - 1075) := by
  have hbits : (Float.ofModel x).toBits.toNat =
      (s.toBitVec.toNat * 2 ^ 11 + e.toNat) * 2 ^ 52 + m.toNat := by
    rw [← toNat_packComponents, ← hx]
    rfl
  have hm := m.isLt
  have he := e.isLt
  have hs : s.toBitVec.toNat < 2 := s.toBitVec.isLt
  have hfield : (Float.ofModel x).toBits.toNat / 2 ^ 52 % 2 ^ 11 = e.toNat := by omega
  have hfraction : (Float.ofModel x).toBits.toNat % 2 ^ 52 = m.toNat := by omega
  have hsign : (Float.ofModel x).toBits.toNat / 2 ^ 63 = s.toBitVec.toNat := by omega
  have hnegative : (s.toBitVec.toNat == 1) = (s == .negative) := by
    cases s with
    | negative => rfl
    | positive => rfl
  simp only [content, Nat.pow_eq, hfield, hfraction, hsign, hnegative, Int.ofNat_eq_natCast]

/-- Every pattern is made of its fields. -/
theorem exists_fields (b : BitVec 64) :
    ∃ (s : Sign) (e : BitVec 11) (m : BitVec 52), b = packComponents Format.binary64 s e m :=
  ⟨_, _, _, (@UnpackedFloat.packComponents_unpackSign_unpackExponent_unpackMantissa
    Format.binary64 b).symm⟩

theorem unpack_ofModel {x : Float.Model} {s : Sign} {e : BitVec 11} {m : BitVec 52}
    (hx : x.toBits.toBitVec = packComponents Format.binary64 s e m) :
    (Float.ofModel x).toModel.unpack =
      UnpackedFloat.unpack Format.binary64 (packComponents Format.binary64 s e m) := by
  rw [← hx]
  rfl

theorem unpack_zeros {s : Sign} {e : BitVec 11} {m : BitVec 52} (he : e.toNat = 0)
    (hm : m.toNat = 0) :
    UnpackedFloat.unpack Format.binary64 (packComponents Format.binary64 s e m) = .zero s := by
  have he0 : e = 0 := BitVec.eq_of_toNat_eq he
  have hm0 : m = 0 := BitVec.eq_of_toNat_eq hm
  rw [he0, hm0]
  exact UnpackedFloat.unpack_packedZero

theorem unpack_normal {s : Sign} {e : BitVec 11} {m : BitVec 52} (he0 : e.toNat ≠ 0)
    (he : e.toNat < 2047) :
    UnpackedFloat.unpack Format.binary64 (packComponents Format.binary64 s e m) =
      .finite s (m.toNat + 2 ^ 52) (e.toNat - 1075) (by omega) := by
  have hone : e ≠ -1#11 := fun h => by
    rw [h] at he
    exact absurd he (by decide)
  have hzero : e ≠ 0#11 := fun h => he0 (by rw [h]; rfl)
  have hm : (1#1 ++ m).toNat = m.toNat + 2 ^ 52 := by
    rw [BitVec.toNat_append, ← Nat.shiftLeft_add_eq_or_of_lt m.isLt, Nat.shiftLeft_eq]
    exact Nat.add_comm _ _
  have hbias : ((Format.binary64.exponentBias : ℤ) + 52) = 1075 := by decide
  unfold UnpackedFloat.unpack
  simp only [UnpackedFloat.unpackExponent_packComponents,
    UnpackedFloat.unpackMantissa_packComponents, UnpackedFloat.unpackSign_packComponents,
    Sign.ofBitVec_toBitVec]
  rw [if_neg hone, if_neg hzero]
  congr 1

/-! ### Filling up the digits -/

section Digits

variable {n : ℕ}

theorem log2_mul_two_pow (hn : n ≠ 0) (k : ℕ) : (n * 2 ^ k).log2 = n.log2 + k := by
  have hpos : n * 2 ^ k ≠ 0 := Nat.mul_ne_zero hn (Nat.two_pow_pos k).ne'
  rw [Nat.log2_eq_iff hpos, Nat.pow_add, Nat.add_right_comm, Nat.pow_add]
  exact ⟨Nat.mul_le_mul_right _ (Nat.log2_self_le hn),
    Nat.mul_lt_mul_of_pos_right Nat.lt_log2_self (Nat.two_pow_pos k)⟩

theorem log2_le_of_lt (hn : n ≠ 0) (h : n < 2 ^ 53) : n.log2 ≤ 52 :=
  Nat.le_of_lt_succ ((Nat.log2_lt hn).mpr h)

/-- Digits that are filled up have the greatest of them in the fifty-third place. -/
theorem filled_bounds (hn : n ≠ 0) (h : n < 2 ^ 53) :
    2 ^ 52 ≤ n * 2 ^ (52 - n.log2) ∧ n * 2 ^ (52 - n.log2) < 2 ^ 53 := by
  have hle := log2_le_of_lt hn h
  have hlow : 2 ^ 52 = 2 ^ n.log2 * 2 ^ (52 - n.log2) := by
    rw [← Nat.pow_add]
    exact congrArg (2 ^ ·) (by omega)
  have hhigh : 2 ^ 53 = 2 ^ (n.log2 + 1) * 2 ^ (52 - n.log2) := by
    rw [← Nat.pow_add]
    exact congrArg (2 ^ ·) (by omega)
  rw [hlow, hhigh]
  exact ⟨Nat.mul_le_mul_right _ (Nat.log2_self_le hn),
    Nat.mul_lt_mul_of_pos_right Nat.lt_log2_self (Nat.two_pow_pos _)⟩

theorem log2_filled (hn : n ≠ 0) (h : n < 2 ^ 53) : (n * 2 ^ (52 - n.log2)).log2 = 52 := by
  have hb := filled_bounds hn h
  exact (Nat.log2_eq_iff (by omega)).mpr hb

end Digits

/-- The sign of a whole number. -/
def signOf (z : ℤ) : Sign := if z < 0 then .negative else .positive

/-- A whole number with its digits filled up, and an exponent that undoes it. -/
def unpackedWhole (z : ℤ) : UnpackedFloat :=
  if h : z = 0 then .zero .positive
  else
    .finite (signOf z) (z.natAbs * 2 ^ (52 - z.natAbs.log2)) (z.natAbs.log2 - 52)
      (Nat.mul_pos (Int.natAbs_pos.mpr h) (Nat.two_pow_pos _))

/-- A whole number as a double. -/
def ofWhole (z : ℤ) : Float := .ofModel (.pack (unpackedWhole z))

theorem unpackedWhole_of_ne {z : ℤ} (hz : z ≠ 0) : unpackedWhole z =
    .finite (signOf z) (z.natAbs * 2 ^ (52 - z.natAbs.log2)) (z.natAbs.log2 - 52)
      (Nat.mul_pos (Int.natAbs_pos.mpr hz) (Nat.two_pow_pos _)) := dif_neg hz

/-- Fifty-three digits are packed without the first of them. -/
theorem pack_finite {s : Sign} {m : ℕ} {e : ℤ} (hpos : 0 < m) (hlog : m.log2 = 52)
    (hlow : -1074 ≤ e) (hhigh : e ≤ 971) :
    UnpackedFloat.pack Format.binary64 (.finite s m e hpos) =
      packComponents Format.binary64 s (BitVec.ofNat 11 (e + 1075).toNat) (BitVec.ofNat 52 m) := by
  have hbias : (e + (Format.binary64.exponentBias : ℤ) + (52 : ℕ)).toNat = (e + 1075).toNat := by
    change (e + 1023 + 52).toNat = (e + 1075).toNat
    rw [add_assoc]
    rfl
  have hrange : ¬ 2 ^ 11 ≤ (e + 1075).toNat + 1 := by omega
  have hnormal : m.log2 + 1 = Format.binary64.mantissaBits := by
    rw [hlog]
    rfl
  simp only [UnpackedFloat.pack, hbias, if_neg hrange, if_pos hnormal]

theorem content_ofWhole {z : ℤ} (hz : z ≠ 0) (h : z.natAbs < 2 ^ 53) : content (ofWhole z) =
    .finite (signOf z == .negative) (z.natAbs * 2 ^ (52 - z.natAbs.log2))
      (z.natAbs.log2 - 52) := by
  have hn : z.natAbs ≠ 0 := Int.natAbs_ne_zero.mpr hz
  have hlog := log2_le_of_lt hn h
  have hb := filled_bounds hn h
  have hbits : (Float.Model.pack (unpackedWhole z)).toBits.toBitVec =
      packComponents Format.binary64 (signOf z)
        (BitVec.ofNat 11 ((z.natAbs.log2 : ℤ) - 52 + 1075).toNat)
        (BitVec.ofNat 52 (z.natAbs * 2 ^ (52 - z.natAbs.log2))) := by
    rw [unpackedWhole_of_ne hz]
    exact pack_finite (Nat.mul_pos (Int.natAbs_pos.mpr hz) (Nat.two_pow_pos _)) (log2_filled hn h)
      (by omega) (by omega)
  have hexp : (BitVec.ofNat 11 ((z.natAbs.log2 : ℤ) - 52 + 1075).toNat).toNat =
      z.natAbs.log2 + 1023 := by
    rw [BitVec.toNat_ofNat]
    omega
  -- The first of the digits is not packed, and comes back with the exponent.
  have hfirst : z.natAbs * 2 ^ (52 - z.natAbs.log2) % 2 ^ 52 + 2 ^ 52 =
      z.natAbs * 2 ^ (52 - z.natAbs.log2) := by omega
  have hshift : ((z.natAbs.log2 + 1023 : ℕ) : ℤ) - 1075 = z.natAbs.log2 - 52 := by omega
  rw [ofWhole, content_ofModel hbits, hexp, BitVec.toNat_ofNat, if_neg (by omega),
    if_neg (by omega), hfirst, hshift]

/-- The exponent takes back what the digits were filled up with. -/
theorem mkRat_quotient_filled {n : ℕ} (hlog : n.log2 ≤ 52) :
    mkRat (quotient (n * 2 ^ (52 - n.log2)) (n.log2 - 52)).1
      (quotient (n * 2 ^ (52 - n.log2)) (n.log2 - 52)).2 = n := by
  have hpow : ((2 ^ (52 - n.log2) : ℕ) : ℚ) ≠ 0 := Nat.cast_ne_zero.mpr (Nat.two_pow_pos _).ne'
  by_cases htop : n.log2 = 52
  · rw [quotient, if_pos (by omega), htop]
    simp only [Nat.sub_self, pow_zero, mul_one, Rat.mkRat_eq_div, Nat.cast_one, div_one,
      Nat.cast_ofNat, sub_self, Int.toNat_zero, Nat.pow_eq, Int.cast_natCast]
  · have hexp : (-((n.log2 : ℤ) - 52)).toNat = 52 - n.log2 := by omega
    rw [quotient, if_neg (by omega), hexp, Rat.mkRat_eq_div]
    simp only [Nat.pow_eq, Nat.cast_mul, Int.cast_natCast, Int.cast_mul]
    exact mul_div_cancel_right₀ _ hpow

theorem toRat?_ofWhole {z : ℤ} (h : z.natAbs < 2 ^ 53) : toRat? (ofWhole z) = some (z : ℚ) := by
  by_cases hz : z = 0
  · subst hz
    decide +kernel
  · have hlog := log2_le_of_lt (Int.natAbs_ne_zero.mpr hz) h
    rw [toRat?, content_ofWhole hz h]
    simp only [mkRat_quotient_filled hlog, Nat.cast_natAbs, Int.cast_abs]
    by_cases hneg : z < 0
    · have hz' : (z : ℚ) < 0 := Int.cast_lt_zero.mpr hneg
      rw [signOf, if_pos hneg, if_pos (by decide), abs_of_neg hz', neg_neg]
    · have hz' : (0 : ℚ) ≤ z := Int.cast_nonneg (not_lt.mp hneg)
      rw [signOf, if_neg hneg, if_neg (by decide), abs_of_nonneg hz']

/-! ### Doubles of whole values -/

/-- An unpacked double that holds a whole number: a zero of either sign, or filled up digits. -/
inductive HoldsWhole : UnpackedFloat → ℤ → Prop
  | zero (s : Sign) : HoldsWhole (.zero s) 0
  | filled {z : ℤ} (hz : z ≠ 0) : HoldsWhole (unpackedWhole z) z

theorem holdsWhole_unpackedWhole (z : ℤ) : HoldsWhole (unpackedWhole z) z := by
  by_cases hz : z = 0
  · subst hz
    exact .zero .positive
  · exact .filled hz

/-- With places behind the point, a whole value means zeros there. -/
theorem eq_mul_of_value {m n k : ℕ} (h : mkRat (quotient m (-k)).1 (quotient m (-k)).2 = n) :
    m = n * 2 ^ k := by
  by_cases hk : k = 0
  · rw [quotient, if_pos (by omega), hk, Rat.mkRat_eq_div] at h
    simpa [hk] using h
  · have hpow : ((2 ^ k : ℕ) : ℚ) ≠ 0 := Nat.cast_ne_zero.mpr (Nat.two_pow_pos k).ne'
    rw [quotient, if_neg (by omega), neg_neg, Int.toNat_natCast, Rat.mkRat_eq_div] at h
    simp only [Nat.pow_eq, Int.cast_natCast, div_eq_iff hpow] at h
    exact_mod_cast h

/-- Behind the point there is no whole number but zero. -/
theorem eq_zero_of_value {m n k : ℕ} (hm : m < 2 ^ 52) (hk : 52 ≤ k)
    (h : mkRat (quotient m (-k)).1 (quotient m (-k)).2 = n) : m = 0 ∧ n = 0 := by
  have hmul := eq_mul_of_value h
  have hn : n = 0 := by
    by_contra hne
    have hle : 1 * 2 ^ 52 ≤ n * 2 ^ k :=
      Nat.mul_le_mul (Nat.one_le_iff_ne_zero.mpr hne) (Nat.pow_le_pow_right (by decide) hk)
    omega
  rw [hn, zero_mul] at hmul
  exact ⟨hmul, hn⟩

/-- The digits of a double of fifty-three digits are those of its value, if that is whole. -/
theorem filled_of_value {m n : ℕ} {e : ℤ} (hlow : 2 ^ 52 ≤ m) (hhigh : m < 2 ^ 53)
    (hn : n < 2 ^ 53) (h : mkRat (quotient m e).1 (quotient m e).2 = n) :
    n ≠ 0 ∧ m = n * 2 ^ (52 - n.log2) ∧ e = n.log2 - 52 := by
  have hlog : m.log2 = 52 := (Nat.log2_eq_iff (by omega)).mpr ⟨hlow, hhigh⟩
  by_cases he : 0 ≤ e
  · rw [quotient, if_pos he, Rat.mkRat_eq_div] at h
    simp only [Nat.pow_eq, Nat.cast_one, div_one, Int.cast_natCast, Nat.cast_inj] at h
    -- There is no room for more places than the mantissa has.
    have hzero : e.toNat = 0 := by
      by_contra hne
      have htwo : 2 ^ 1 ≤ 2 ^ e.toNat := Nat.pow_le_pow_right (by decide) (by omega)
      have hmul := Nat.mul_le_mul hlow htwo
      omega
    rw [hzero, pow_zero, mul_one] at h
    subst h
    refine ⟨by omega, ?_, by omega⟩
    rw [hlog, Nat.sub_self, pow_zero, mul_one]
  · rw [show e = -((-e).toNat : ℤ) by omega] at h
    have hm := eq_mul_of_value h
    have hn0 : n ≠ 0 := fun h0 => by
      rw [h0, zero_mul] at hm
      omega
    have hplaces : 52 = n.log2 + (-e).toNat := by rw [← log2_mul_two_pow hn0, ← hm, hlog]
    refine ⟨hn0, ?_, by omega⟩
    rw [hm]
    congr 2
    omega

/-- The amount and the sign of a whole value. -/
theorem magnitude_of_value {s : Sign} {m : ℕ} {e z : ℤ}
    (h : (if (s == .negative) = true then -mkRat (quotient m e).1 (quotient m e).2
      else mkRat (quotient m e).1 (quotient m e).2) = (z : ℚ)) :
    mkRat (quotient m e).1 (quotient m e).2 = z.natAbs ∧ (z ≠ 0 → s = signOf z) := by
  have hv : (0 : ℚ) ≤ mkRat (quotient m e).1 (quotient m e).2 := by
    rw [Rat.mkRat_eq_div]
    exact div_nonneg (Nat.cast_nonneg _) (Nat.cast_nonneg _)
  have habs : (z.natAbs : ℚ) = |(z : ℚ)| := by rw [Nat.cast_natAbs, Int.cast_abs]
  rw [habs, ← h]
  cases s with
  | negative =>
      have hs : (Sign.negative == Sign.negative) = true := rfl
      rw [if_pos hs] at h ⊢
      refine ⟨by rw [abs_neg, abs_of_nonneg hv], fun hz => ?_⟩
      have hle : (z : ℚ) ≤ 0 := by linarith
      rw [signOf, if_pos (lt_of_le_of_ne (Int.cast_nonpos.mp hle) hz)]
  | positive =>
      rw [if_neg (by decide)] at h ⊢
      refine ⟨(abs_of_nonneg hv).symm, fun _ => ?_⟩
      rw [signOf, if_neg (not_lt.mpr (Int.cast_nonneg_iff.mp (h ▸ hv)))]

/-- A double whose value is a whole number of at most fifty-three digits holds that number. -/
theorem holdsWhole_of_toRat? {x : Float} {z : ℤ} (hx : toRat? x = some (z : ℚ))
    (hz : z.natAbs < 2 ^ 53) : HoldsWhole x.toModel.unpack z := by
  rcases x with ⟨x⟩
  rcases exists_fields x.toBits.toBitVec with ⟨s, e, m, hbits⟩
  have hm := m.isLt
  have he := e.isLt
  rw [toRat?, content_ofModel hbits] at hx
  rw [unpack_ofModel hbits]
  by_cases htop : e.toNat = 2047
  · -- Infinite values and those that are no number have no value.
    by_cases hm0 : m.toNat = 0
    · simp [htop, hm0] at hx
    · simp [htop, hm0] at hx
  by_cases he0 : e.toNat = 0
  · -- Without the first digit only zero is whole.
    simp only [if_neg htop, if_pos he0, Option.some.injEq] at hx
    rcases magnitude_of_value hx with ⟨hvalue, _⟩
    rcases eq_zero_of_value hm (by decide : 52 ≤ 1074) hvalue with ⟨hm0, hz0⟩
    rw [Int.natAbs_eq_zero.mp hz0, unpack_zeros he0 hm0]
    exact .zero s
  · simp only [if_neg htop, if_neg he0, Option.some.injEq] at hx
    rcases magnitude_of_value hx with ⟨hvalue, hsign⟩
    rcases filled_of_value (by omega) (by omega) hz hvalue with ⟨hz0, hdigits, hexp⟩
    have hne := Int.natAbs_ne_zero.mp hz0
    have hwhole := HoldsWhole.filled hne
    rw [unpackedWhole_of_ne hne] at hwhole
    rw [hsign hne, unpack_normal he0 (by omega)]
    simp only [hdigits, hexp]
    exact hwhole

end Binary64

end Roster
