import Mathlib

/-!
# Rounding to binary floating point

Arithmetic on floating point numbers is exact arithmetic on mantissas and exponents followed by
a rounding: the mantissa is cut to 53 bits, the bits that are cut off decide whether it goes up
by one, and a mantissa that has become too long is halved. What comes out is zero or a number
in canonical form, and such a number is read back as it is written unless it is too large.

No error bound is proved here, but the mantissa and the exponent of the result are given, and a
number is left alone that needs no rounding.

## Main results

* `roundWithAccuracy_cases`: the result of a rounding is zero or in canonical form, and its
  exponent.
* `Canonical.roundWithAccuracy_mul_two_pow`: a number that needs no rounding stays as it is.
* `Canonical.unpack_pack`: a number in canonical form is read back.
-/

namespace Linkage

open Float.Model Float.Model.UnpackedFloat

/-! ### Cutting a mantissa -/

/-- The exponent that a number is rounded to. -/
theorem targetExponent_eq (m : Nat) (e : Int) :
    Format.binary64.targetExponent (totalExponent m e) = max ((m.log2 : Int) + e - 52) (-1074) := by
  simp only [Format.targetExponent, totalExponent, Format.mantissaBits, Format.minExponent]
  omega

/-- Cutting off bits divides by a power of two. -/
theorem mantissa_shiftRight (x : ExtendedMantissa) (k : Nat) :
    (x >>> k).mantissa = x.mantissa / 2 ^ k := by
  induction k generalizing x with
  | zero => simp [HShiftRight.hShiftRight, Nat.repeat]
  | succ k ih =>
      have hstep : (x >>> (k + 1)).mantissa = (x >>> k).mantissa / 2 := rfl
      rw [hstep, ih, Nat.div_div_eq_div_mul, pow_succ]

/-- Cutting off zeros loses nothing. -/
theorem shiftRight_mul_two_pow (m k : Nat) :
    (⟨m * 2 ^ k, false, false⟩ : ExtendedMantissa) >>> k = ⟨m, false, false⟩ := by
  induction k generalizing m with
  | zero => simp [HShiftRight.hShiftRight, Nat.repeat]
  | succ k ih =>
      have hstep : (⟨m * 2 ^ (k + 1), false, false⟩ : ExtendedMantissa) >>> (k + 1) =
          ((⟨(m * 2) * 2 ^ k, false, false⟩ : ExtendedMantissa) >>> k).shiftRightOne := by
        rw [mul_assoc, ← pow_succ']
        rfl
      rw [hstep, ih, ExtendedMantissa.shiftRightOne]
      simp

/-- A mantissa is rounded down or up by one. -/
theorem roundedMantissa_mem (x : ExtendedMantissa) :
    x.mantissa ≤ x.roundedMantissa ∧ x.roundedMantissa ≤ x.mantissa + 1 := by
  rcases x with ⟨m, _ | _, _ | _⟩ <;>
    simp only [ExtendedMantissa.roundedMantissa, ExtendedMantissa.accuracy,
      Accuracy.roundToNearestEven] <;> omega

/-- A mantissa of at most 53 bits is left as it is. -/
theorem shiftToTargetExponent_of_lt {m : Nat} {e : Int} (hm : m < 2 ^ 53) (he : -1074 ≤ e) :
    shiftToTargetExponent Format.binary64 m e .exact = (⟨m, false, false⟩, e) := by
  have hlog : m.log2 ≤ 52 := by
    by_cases hzero : m = 0
    · simp [hzero]
    · have := (Nat.log2_lt hzero).mpr hm
      omega
  have hshift : (max ((m.log2 : Int) + e - 52) (-1074) - e).toNat = 0 := by omega
  simp only [shiftToTargetExponent, shiftToExponent, targetExponent_eq, hshift,
    ExtendedMantissa.ofMantissaAndAccuracy]
  simp [HShiftRight.hShiftRight, Nat.repeat]

/-- A mantissa that has been rounded up to 54 bits is halved. -/
theorem shiftToTargetExponent_two_pow {e : Int} (he : -1074 ≤ e) :
    shiftToTargetExponent Format.binary64 (2 ^ 53) e .exact = (⟨2 ^ 52, false, false⟩, e + 1) := by
  have htarget : max (((2 ^ 53 : Nat).log2 : Int) + e - 52) (-1074) = e + 1 := by
    rw [Nat.log2_two_pow]
    omega
  have hshift : (e + 1 - e).toNat = 1 := by omega
  simp only [shiftToTargetExponent, shiftToExponent, targetExponent_eq, htarget, hshift,
    ExtendedMantissa.ofMantissaAndAccuracy]
  rfl

/-! ### Canonical form -/

/-- A finite number is in **canonical form** when its mantissa has 53 bits, or fewer at the
least exponent. -/
structure Canonical (m : Nat) (e : Int) : Prop where
  /-- The mantissa has at most 53 bits. -/
  lt : m < 2 ^ 53
  /-- The exponent is not below the least one. -/
  least : -1074 ≤ e
  /-- The first bit of the mantissa is set, except at the least exponent. -/
  full : 2 ^ 52 ≤ m ∨ e = -1074

/-! ### The result of a rounding -/

/-- Cutting a mantissa to its target exponent leaves 53 bits, or fewer at the
least exponent. -/
theorem cut_bounds {m : Nat} {e t : Int} (hm : 0 < m ∨ t = -1074)
    (ht : t = max ((m.log2 : Int) + e - 52) (-1074)) (he : e ≤ t) :
    m / 2 ^ (t - e).toNat < 2 ^ 53 ∧ (2 ^ 52 ≤ m / 2 ^ (t - e).toNat ∨ t = -1074) := by
  constructor
  · rw [Nat.div_lt_iff_lt_mul (Nat.two_pow_pos _), ← pow_add]
    exact Nat.lt_log2_self.trans_le (Nat.pow_le_pow_right (by decide) (by omega))
  · refine or_iff_not_imp_right.mpr fun hleast => ?_
    rw [Nat.le_div_iff_mul_le (Nat.two_pow_pos _), ← pow_add]
    exact (Nat.pow_le_pow_right (by decide) (by omega)).trans
      (Nat.log2_self_le (hm.resolve_right hleast).ne')

/-- The mantissa that a rounding leaves before it is halved when it has become too long. -/
def roundedAt (m : Nat) (a : Accuracy) (k : Nat) : Nat :=
  (ExtendedMantissa.ofMantissaAndAccuracy m a >>> k).roundedMantissa

/-- The whole part of a mantissa that is cut by some bits. -/
theorem mantissa_ofMantissaAndAccuracy_shiftRight (m : Nat) (a : Accuracy) (k : Nat) :
    (ExtendedMantissa.ofMantissaAndAccuracy m a >>> k).mantissa = m / 2 ^ k := by
  rw [mantissa_shiftRight]
  rcases a with _ | _ | _ | _ <;> rfl

/-- A mantissa that is cut by some bits is the quotient or the next number. -/
theorem roundedAt_mem (m : Nat) (a : Accuracy) (k : Nat) :
    m / 2 ^ k ≤ roundedAt m a k ∧ roundedAt m a k ≤ m / 2 ^ k + 1 := by
  rw [← mantissa_ofMantissaAndAccuracy_shiftRight m a k]
  exact roundedMantissa_mem _

/-- **The result of a rounding** is zero or a number in canonical form. Its exponent is the
target exponent, or the next one when the mantissa is rounded up to 54 bits. -/
theorem roundWithAccuracy_cases (s : Sign) {m : Nat} {e t : Int} (a : Accuracy)
    (hm : 0 < m ∨ t = -1074) (ht : t = max ((m.log2 : Int) + e - 52) (-1074)) (he : e ≤ t) :
    roundedAt m a (t - e).toNat = 0 ∧ roundWithAccuracy Format.binary64 s m e a = .zero s ∨
      ∃ r d, ∃ hr : 0 < r, roundWithAccuracy Format.binary64 s m e a = .finite s r d hr ∧
        Canonical r d ∧ (d = t ∧ roundedAt m a (t - e).toNat = r ∨
          d = t + 1 ∧ r = 2 ^ 52 ∧ roundedAt m a (t - e).toNat = 2 ^ 53) := by
  have hmin : -1074 ≤ t := by omega
  obtain ⟨hshort, hfull⟩ := cut_bounds hm ht he
  obtain ⟨hlow, hhigh⟩ := roundedAt_mem m a (t - e).toNat
  have hfirst : shiftToTargetExponent Format.binary64 m e a =
      (ExtendedMantissa.ofMantissaAndAccuracy m a >>> (t - e).toNat, t) := by
    have hexponent : e + ((t - e).toNat : Int) = t := by omega
    simp only [shiftToTargetExponent, shiftToExponent, targetExponent_eq, ← ht, hexponent]
  rw [roundWithAccuracy]
  generalize hr : roundedAt m a (t - e).toNat = r at hlow hhigh
  rw [roundedAt] at hr
  simp only [hfirst, hr]
  by_cases hlt : r < 2 ^ 53
  · simp only [shiftToTargetExponent_of_lt hlt hmin]
    by_cases hzero : r = 0
    · exact .inl ⟨hzero, dif_pos hzero⟩
    · exact .inr ⟨r, t, Nat.pos_of_ne_zero hzero, dif_neg hzero,
        ⟨hlt, hmin, hfull.imp_left fun h => h.trans hlow⟩, .inl ⟨rfl, rfl⟩⟩
  · obtain rfl : r = 2 ^ 53 := by omega
    simp only [shiftToTargetExponent_two_pow hmin]
    exact .inr ⟨2 ^ 52, t + 1, by decide, rfl, ⟨by decide, by omega, .inl le_rfl⟩,
      .inr ⟨rfl, rfl, trivial⟩⟩

/-- Zeros after a mantissa make it longer by as many bits. -/
theorem log2_mul_two_pow {m : Nat} (hm : 0 < m) (k : Nat) : (m * 2 ^ k).log2 = m.log2 + k := by
  induction k with
  | zero => simp
  | succ k ih =>
      rw [pow_succ, ← mul_assoc, mul_comm _ 2, Nat.log2_two_mul (by positivity), ih, add_assoc]

/-- **Rounding an exact number**: a number in canonical form stays as it is, also when its
mantissa is followed by zeros. -/
theorem Canonical.roundWithAccuracy_mul_two_pow {m : Nat} {e : Int} (h : Canonical m e) (s : Sign)
    (hm : 0 < m) (k : Nat) :
    roundWithAccuracy Format.binary64 s (m * 2 ^ k) (e - k) .exact = .finite s m e hm := by
  have htarget : max (((m * 2 ^ k).log2 : Int) + (e - k) - 52) (-1074) = e := by
    have hlow : m.log2 ≤ 52 := by
      have := (Nat.log2_lt (k := 53) hm.ne').mpr h.lt
      omega
    rw [log2_mul_two_pow hm]
    rcases h.full with hfull | rfl
    · have := (Nat.le_log2 (k := 52) hm.ne').mpr hfull
      have := h.least
      omega
    · omega
  have hshift : (e - (e - k)).toNat = k := by omega
  have hfirst : shiftToTargetExponent Format.binary64 (m * 2 ^ k) (e - k) .exact =
      (⟨m, false, false⟩, e) := by
    simp only [shiftToTargetExponent, shiftToExponent, targetExponent_eq, htarget, hshift,
      ExtendedMantissa.ofMantissaAndAccuracy, shiftRight_mul_two_pow]
    simp
  have hround : (⟨m, false, false⟩ : ExtendedMantissa).roundedMantissa = m := by rfl
  rw [roundWithAccuracy]
  simp only [hfirst, hround, shiftToTargetExponent_of_lt h.lt h.least, dif_neg hm.ne']

/-! ### Reading back -/

/-- An exponent field within range is that of no special value. -/
theorem exponentField_ne {b : Nat} (hpos : 0 < b) (hb : b < 2047) :
    BitVec.ofNat 11 b ≠ -1#11 ∧ BitVec.ofNat 11 b ≠ 0#11 ∧ (BitVec.ofNat 11 b).toNat = b := by
  have hfield : (BitVec.ofNat 11 b).toNat = b := by
    rw [BitVec.toNat_ofNat]
    omega
  have hones : (-1#11).toNat = 2047 := by decide
  have hzero : (0#11).toNat = 0 := by decide
  refine ⟨fun h => ?_, fun h => ?_, hfield⟩ <;> rw [h] at hfield <;> omega

/-- The first bit of a mantissa of 53 bits is not stored. -/
theorem toNat_one_append {m : Nat} (hfull : 2 ^ 52 ≤ m) (hm : m < 2 ^ 53) :
    (1#1 ++ BitVec.ofNat 52 m).toNat = m := by
  have hlow : m % 2 ^ 52 < 2 ^ 52 := Nat.mod_lt _ (by decide)
  rw [BitVec.toNat_append, BitVec.toNat_ofNat, BitVec.toNat_ofNat,
    ← Nat.shiftLeft_add_eq_or_of_lt hlow, Nat.shiftLeft_eq]
  omega

/-- Zero is read back. -/
theorem unpack_pack_zero (s : Sign) : (Float.Model.pack (.zero s)).unpack = .zero s :=
  unpack_packedZero

/-- **A number in canonical form is read back** as it is written, unless it is too large. -/
theorem Canonical.unpack_pack {m : Nat} {e : Int} (h : Canonical m e) (s : Sign) (hm : 0 < m)
    (he : e ≤ 971) : (Float.Model.pack (.finite s m e hm)).unpack = .finite s m e hm := by
  have hbias : ((Format.exponentBias Format.binary64 : Nat) : Int) = 1023 := rfl
  have hmantissaBits : Format.binary64.mantissaBits = 53 := rfl
  have hleast := h.least
  obtain ⟨b, hb⟩ : ∃ b : Nat, (b : Int) = e + 1075 := ⟨(e + 1075).toNat, by omega⟩
  have hbiased : (e + (Format.exponentBias Format.binary64 : Int) + (52 : Nat)).toNat = b := by
    omega
  have hrange : ¬ 2 ^ 11 ≤ b + 1 := by omega
  show UnpackedFloat.unpack Format.binary64 (UnpackedFloat.pack Format.binary64 _) = _
  by_cases hfull : 2 ^ 52 ≤ m
  · obtain ⟨hones, hzero, hfield⟩ := exponentField_ne (b := b) (by omega) (by omega)
    have hlog : m.log2 = 52 := (Nat.log2_eq_iff (by omega)).mpr ⟨hfull, h.lt⟩
    simp only [UnpackedFloat.pack, hbiased, if_neg hrange, hlog, hmantissaBits, if_true,
      UnpackedFloat.unpack, unpackExponent_packComponents, unpackMantissa_packComponents,
      unpackSign_packComponents, Sign.ofBitVec_toBitVec, if_neg hones, if_neg hzero,
      toNat_one_append hfull h.lt, hfield]
    congr 1
    omega
  · obtain rfl : e = -1074 := h.full.resolve_left hfull
    have hlog : m.log2 + 1 ≠ 53 := by
      have := (Nat.log2_lt (k := 52) hm.ne').mpr (by omega)
      omega
    have hfield : (BitVec.ofNat 52 m).toNat = m := by
      rw [BitVec.toNat_ofNat]
      omega
    have hmantissa : BitVec.ofNat 52 m ≠ 0#52 := fun h => by
      rw [h] at hfield
      exact hm.ne hfield
    have hones : (0#11 : BitVec 11) ≠ -1#11 := by decide
    simp only [UnpackedFloat.pack, hbiased, if_neg hrange, hmantissaBits, if_neg hlog,
      UnpackedFloat.unpack, unpackExponent_packComponents, unpackMantissa_packComponents,
      unpackSign_packComponents, Sign.ofBitVec_toBitVec, if_neg hones, if_true, dif_neg hmantissa,
      hfield]
    rfl

end Linkage
