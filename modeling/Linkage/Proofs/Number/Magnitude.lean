import Mathlib
import Linkage.Number.Binary64
import Linkage.Proofs.Number.Binary64
import Linkage.Proofs.Number.Nearest

/-!
# The size of floating point numbers

A finite floating point number represents a rational number. The sum, the difference, the
product and the quotient of two such numbers represent the nearest binary number to the exact
result, as long as that is not too large. So nothing is lost to infinity or to an undefined
number as long as the exact results stay below `2 ^ 1023`, and no result is more than twice as
large as the exact one.

A sum of non-negative numbers exceeds the exact one by no more than its lesser part: the other
part is a binary number that is as near. By this the sum of `n` numbers up to `b` is at most `n
^ 2 * b` in every order of addition.

## Main results

* `Represents.exists_nearest_add`, `Represents.exists_nearest_mul`,
  `Represents.exists_nearest_div`: the results of operations.
* `Represents.exists_nearest_natCast`: a natural number is nearest to itself.
* `UpTo.add`: how large a sum of sums is.
-/

namespace Linkage

open Float.Model Float.Model.UnpackedFloat

/-! ### Operations on numbers taken apart -/

section Unpacked

variable {x y : UnpackedFloat} {u v : ℚ}

/-- Rounding a mantissa at an exponent of its own. -/
theorem exists_nearest_round (s : Sign) {m : ℕ} (hm : 0 < m) (e : ℤ)
    (hlt : |(m : ℚ) * 2 ^ e| < 2 ^ 1023) :
    ∃ r, HasValue (Float.Model.pack (UnpackedFloat.round .binary64 s m e)).unpack
      (signFactor s * r) ∧
      Nearest (m * 2 ^ e) r := by
  obtain ⟨t, ht⟩ : ∃ t, t = max ((m.log2 : ℤ) + e - 52) (-1074) := ⟨_, rfl⟩
  obtain ⟨k, hk⟩ : ∃ k, k = (e - t).toNat := ⟨_, rfl⟩
  have hlog : ((m * 2 ^ k).log2 : ℤ) + (e - k) - 52 = m.log2 + e - 52 := by
    rw [log2_mul_two_pow hm]
    push_cast
    ring
  have hdescribes : Describes (ExtendedMantissa.ofMantissaAndAccuracy (m * 2 ^ k) .exact)
      ((m : ℚ) * 2 ^ e / 2 ^ (e - (k : ℤ))) := by
    have hcast : (m : ℚ) * 2 ^ e / 2 ^ (e - (k : ℤ)) = ((m * 2 ^ k : ℕ) : ℚ) := by
      rw [mul_div_assoc, ← zpow_sub₀ two_ne_zero, sub_sub_cancel, zpow_natCast]
      push_cast
      rfl
    rw [hcast]
    exact describes_exact _
  have hround := exists_nearest_of_describes s (t := t) (.inl (by positivity)) (by rw [hlog, ht])
    (by omega) hdescribes hlt
  simpa only [UnpackedFloat.round, targetExponent_eq, ← ht, decreaseExponent, ← hk,
    Nat.shiftLeft_eq] using hround

/-- Rounding a signed mantissa. -/
theorem exists_nearest_normalize (z : Sign) (n e : ℤ) (hlt : |(n : ℚ) * 2 ^ e| < 2 ^ 1023) :
    ∃ r, HasValue (Float.Model.pack (UnpackedFloat.normalize .binary64 n e z)).unpack r ∧
      Nearest (n * 2 ^ e) r := by
  rw [UnpackedFloat.normalize]
  rcases lt_trichotomy n 0 with hn | rfl | hn
  · obtain ⟨m, rfl⟩ : ∃ m : ℕ, n = -m := ⟨(-n).toNat, by omega⟩
    have hvalue : ((-(m : ℤ) : ℤ) : ℚ) * 2 ^ e = -(m * 2 ^ e) := by
      push_cast
      ring
    rw [hvalue, abs_neg] at hlt
    obtain ⟨r, hr, hnearest⟩ := exists_nearest_round .negative (m := m) (by omega) e hlt
    refine ⟨-r, ?_, hvalue ▸ hnearest.neg⟩
    simpa [Int.compare_eq_lt.mpr hn, signFactor] using hr
  · refine ⟨0, ?_, by simpa using Nearest.self isBinary_zero⟩
    rw [Int.compare_eq_eq.mpr rfl, unpack_pack_zero]
    exact .zero z
  · obtain ⟨m, rfl⟩ : ∃ m : ℕ, n = m := ⟨n.toNat, by omega⟩
    rw [Int.cast_natCast] at hlt ⊢
    obtain ⟨r, hr, hnearest⟩ := exists_nearest_round .positive (m := m) (by omega) e hlt
    refine ⟨r, ?_, hnearest⟩
    simpa [Int.compare_eq_gt.mpr hn, signFactor] using hr

/-- A number at a smaller exponent has a longer mantissa. -/
theorem apply_decreaseExponent (s : Sign) (m : ℕ) {e d : ℤ} (h : d ≤ e) :
    ((s.apply (decreaseExponent m e d).1 : ℤ) : ℚ) * 2 ^ d = signFactor s * (m * 2 ^ e) := by
  obtain ⟨k, rfl⟩ : ∃ k : ℕ, e = d + k := ⟨(e - d).toNat, by omega⟩
  have hk : (d + (k : ℤ) - d).toNat = k := by omega
  have hmantissa : ((s.apply (decreaseExponent m (d + k) d).1 : ℤ) : ℚ) =
      signFactor s * (m * 2 ^ k) := by
    rw [decreaseExponent, hk, Nat.shiftLeft_eq]
    cases s <;> simp [Sign.apply, signFactor]
  rw [hmantissa, zpow_add₀ two_ne_zero, zpow_natCast]
  ring

/-- **A sum** of two numbers is nearest to the exact one. -/
theorem HasValue.exists_nearest_add (hx : HasValue x u) (hy : HasValue y v)
    (hlt : |u + v| < 2 ^ 1023) :
    ∃ r, HasValue (Float.Model.pack (UnpackedFloat.add .binary64 x y)).unpack r ∧
      Nearest (u + v) r := by
  have hreadx : HasValue (Float.Model.pack x).unpack u := hx.unpack_pack.symm ▸ hx
  have hready : HasValue (Float.Model.pack y).unpack v := hy.unpack_pack.symm ▸ hy
  have hselfx := Nearest.self hx.isBinary
  have hselfy := Nearest.self hy.isBinary
  rcases hx with s | ⟨s, m, e, hm, he, hrange⟩ <;> rcases hy with s' | ⟨s', n, d, hn, hd, hrange'⟩
  · refine ⟨0, ?_, by simpa using hselfx⟩
    rw [UnpackedFloat.add]
    split <;> rw [unpack_pack_zero] <;> exact .zero _
  · rw [zero_add]
    exact ⟨_, hready, hselfy⟩
  · rw [add_zero]
    exact ⟨_, hreadx, hselfx⟩
  · have hsum : ((s.apply (decreaseExponent m e (min e d)).1 +
        s'.apply (decreaseExponent n d (min e d)).1 : ℤ) : ℚ) * 2 ^ min e d =
        signFactor s * (m * 2 ^ e) + signFactor s' * (n * 2 ^ d) := by
      rw [Int.cast_add, add_mul, apply_decreaseExponent s m (min_le_left e d),
        apply_decreaseExponent s' n (min_le_right e d)]
    rw [← hsum] at hlt ⊢
    exact exists_nearest_normalize .positive _ _ hlt

/-- A difference is a sum with the number of the opposite sign. -/
theorem unpackedSub_eq_add_neg (x y : UnpackedFloat) :
    UnpackedFloat.sub .binary64 x y = UnpackedFloat.add .binary64 x y.neg := by
  have happly : ∀ (s : Sign) (n : ℤ), -s.apply n = (-s).apply n := by
    intro s n
    cases s with
    | negative => exact neg_neg n
    | positive => rfl
  rcases x with s | _ | s | ⟨s, m, e, hm⟩ <;> rcases y with s' | _ | s' | ⟨s', n, d, hn⟩ <;>
    simp only [UnpackedFloat.sub, UnpackedFloat.add, UnpackedFloat.neg, sub_eq_add_neg, happly]

/-- **A product** of two numbers is nearest to the exact one. -/
theorem HasValue.exists_nearest_mul (hx : HasValue x u) (hy : HasValue y v)
    (hlt : |u * v| < 2 ^ 1023) :
    ∃ r, HasValue (Float.Model.pack (UnpackedFloat.mul .binary64 x y)).unpack r ∧
      Nearest (u * v) r := by
  rcases hx with s | ⟨s, m, e, hm, he, hrange⟩ <;> rcases hy with s' | ⟨s', n, d, hn, hd, hrange'⟩
  · rw [zero_mul]
    exact ⟨0, by rw [UnpackedFloat.mul, unpack_pack_zero]; exact .zero _, .self isBinary_zero⟩
  · rw [zero_mul]
    exact ⟨0, by rw [UnpackedFloat.mul, unpack_pack_zero]; exact .zero _, .self isBinary_zero⟩
  · rw [mul_zero]
    exact ⟨0, by rw [UnpackedFloat.mul, unpack_pack_zero]; exact .zero _, .self isBinary_zero⟩
  · have hproduct : signFactor s * (m * 2 ^ e) * (signFactor s' * (n * 2 ^ d)) =
        signFactor (s * s') * (((m * n : ℕ) : ℚ) * 2 ^ (e + d)) := by
      rw [signFactor_mul, zpow_add₀ two_ne_zero]
      push_cast
      ring
    -- A product of which a factor has 53 bits has as many, and any other is at the least
    -- exponent.
    have hexponent : e + d ≤ max (((m * n).log2 : ℤ) + (e + d) - 52) (-1074) := by
      have hlong : 2 ^ 52 ≤ m ∨ 2 ^ 52 ≤ n → 52 ≤ (m * n).log2 := fun hfull => by
        rw [Nat.le_log2 (Nat.mul_pos hm hn).ne']
        rcases hfull with hfull | hfull
        · exact hfull.trans (Nat.le_mul_of_pos_right m hn)
        · exact hfull.trans (Nat.le_mul_of_pos_left n hm)
      rcases he.full with hfull | rfl
      · have := hlong (.inl hfull)
        omega
      · rcases hd.full with hfull | rfl
        · have := hlong (.inr hfull)
          omega
        · omega
    have hdescribes : Describes (ExtendedMantissa.ofMantissaAndAccuracy (m * n) .exact)
        (((m * n : ℕ) : ℚ) * 2 ^ (e + d) / 2 ^ (e + d)) := by
      rw [mul_div_cancel_right₀ _ (by positivity)]
      exact describes_exact _
    rw [hproduct, abs_signFactor_mul] at hlt
    obtain ⟨r, hr, hnearest⟩ := exists_nearest_of_describes (s * s') (.inl (Nat.mul_pos hm hn)) rfl
      hexponent hdescribes hlt
    rw [hproduct]
    exact ⟨_, hr, hnearest.signFactor_mul (s * s')⟩

/-- A quotient whose exponent is lowered has 53 bits, or its exponent is below the
least one. -/
theorem divCore_cases {m n : ℕ} (hm : 0 < m) (hn : 0 < n) (e d : ℤ) :
    ∃ k : ℕ, divCore .binary64 m e n d =
        (m * 2 ^ k / n, e - d - k, accuracyOfFraction (m * 2 ^ k % n) n) ∧
      (2 ^ 52 ≤ m * 2 ^ k / n ∨ e - d - k ≤ -1074) := by
  obtain ⟨t, ht⟩ : ∃ t, t = min (e - d)
    (Format.binary64.targetExponent (totalExponent m e - totalExponent n d)) := ⟨_, rfl⟩
  have hcases : t ≤ -1074 ∨ t ≤ (m.log2 : ℤ) + e - (n.log2 + d) - 53 := by
    simp only [Format.targetExponent, totalExponent, Format.mantissaBits, Format.minExponent] at ht
    omega
  refine ⟨(e - d - t).toNat, ?_, ?_⟩
  · have hexponent : e - d - ((e - d - t).toNat : ℤ) = t := by omega
    simp only [divCore, ← ht, Nat.shiftLeft_eq, hexponent]
  · rcases hcases with hleast | hlong
    · right
      omega
    · left
      rw [Nat.le_div_iff_mul_le hn]
      calc 2 ^ 52 * n ≤ 2 ^ 52 * 2 ^ (n.log2 + 1) := Nat.mul_le_mul_left _ Nat.lt_log2_self.le
        _ = 2 ^ (52 + (n.log2 + 1)) := (pow_add _ _ _).symm
        _ ≤ 2 ^ (m.log2 + (e - d - t).toNat) := Nat.pow_le_pow_right two_pos (by omega)
        _ = 2 ^ m.log2 * 2 ^ (e - d - t).toNat := pow_add _ _ _
        _ ≤ m * 2 ^ (e - d - t).toNat := Nat.mul_le_mul_right _ (Nat.log2_self_le hm.ne')

/-- **A quotient** of two numbers is nearest to the exact one. -/
theorem HasValue.exists_nearest_div (hx : HasValue x u) (hy : HasValue y v) (hv : v ≠ 0)
    (hlt : |u / v| < 2 ^ 1023) :
    ∃ r, HasValue (Float.Model.pack (UnpackedFloat.div .binary64 x y)).unpack r ∧
      Nearest (u / v) r := by
  rcases hy with s' | ⟨s', n, d, hn, hd, hrange'⟩
  · exact absurd rfl hv
  rcases hx with s | ⟨s, m, e, hm, he, hrange⟩
  · rw [zero_div]
    exact ⟨0, by rw [UnpackedFloat.div, unpack_pack_zero]; exact .zero _, .self isBinary_zero⟩
  · obtain ⟨k, hcore, hcases⟩ := divCore_cases hm hn e d
    have hquotient : signFactor s * (m * 2 ^ e) / (signFactor s' * (n * 2 ^ d)) =
        signFactor (s / s') * (((m * 2 ^ k : ℕ) : ℚ) / n * 2 ^ (e - d - (k : ℤ))) := by
      have hn' : (n : ℚ) ≠ 0 := Nat.cast_ne_zero.mpr hn.ne'
      have hs' := signFactor_ne_zero s'
      rw [signFactor_div, zpow_sub₀ two_ne_zero, zpow_sub₀ two_ne_zero, zpow_natCast]
      push_cast
      field_simp
    rw [hquotient, abs_signFactor_mul] at hlt
    have hdescribes : Describes (ExtendedMantissa.ofMantissaAndAccuracy (m * 2 ^ k / n)
        (accuracyOfFraction (m * 2 ^ k % n) n))
        (((m * 2 ^ k : ℕ) : ℚ) / n * 2 ^ (e - d - (k : ℤ)) / 2 ^ (e - d - (k : ℤ))) := by
      rw [mul_div_cancel_right₀ _ (by positivity)]
      exact describes_accuracyOfFraction _ hn
    rw [hquotient, UnpackedFloat.div, hcore]
    generalize m * 2 ^ k / n = q at hcases hdescribes ⊢
    generalize e - d - (k : ℤ) = c at hcases hdescribes hlt ⊢
    have hexponent : c ≤ max ((q.log2 : ℤ) + c - 52) (-1074) := by
      rcases hcases with hlong | hleast
      · have := (Nat.le_log2 (by omega : q ≠ 0)).mpr hlong
        omega
      · omega
    have hpositive : 0 < q ∨ max ((q.log2 : ℤ) + c - 52) (-1074) = -1074 := by
      rcases Nat.eq_zero_or_pos q with rfl | hq
      · right
        rw [Nat.log2_zero]
        omega
      · exact .inl hq
    obtain ⟨r, hr, hnearest⟩ := exists_nearest_of_describes (s / s') hpositive rfl hexponent
      hdescribes hlt
    exact ⟨_, hr, hnearest.signFactor_mul (s / s')⟩

end Unpacked

/-! ### Finite numbers -/

/-- A floating point number **represents** a rational number. -/
def Represents (x : Float) (v : ℚ) : Prop := HasValue x.toModel.unpack v

/-- The exponent field of a finite number is not that of the special values. -/
theorem unpackExponent_ne_of_isFinite {b : BitVec Format.binary64.numBits}
    (h : (UnpackedFloat.unpack .binary64 b).isFinite = true) : unpackExponent b ≠ -1#11 := by
  intro hones
  rw [UnpackedFloat.unpack] at h
  simp only [hones, if_true] at h
  split at h <;> cases h

/-- The exponent field as a number: the eleven bits above the mantissa. -/
theorem toNat_unpackExponent (x : Float) :
    (@unpackExponent .binary64 x.toModel.toBits.toBitVec).toNat =
      x.toBits.toNat / Nat.pow 2 52 % Nat.pow 2 11 := by
  have hbits : x.toBits.toNat = x.toModel.toBits.toBitVec.toNat := rfl
  rw [hbits, unpackExponent]
  simp [BitVec.extractLsb, Nat.shiftRight_eq_div_pow]

/-- A finite number is taken apart into a mantissa and an exponent. -/
theorem exists_parts_of_isFinite {x : Float} (h : x.isFinite = true) :
    ∃ n m q, FloatParts.ofFloat x = .finite n m q := by
  have hfield : x.toBits.toNat / Nat.pow 2 52 % Nat.pow 2 11 ≠ 2047 := by
    rw [← toNat_unpackExponent]
    exact fun hspecial => unpackExponent_ne_of_isFinite h (BitVec.eq_of_toNat_eq hspecial)
  simp only [FloatParts.ofFloat, if_neg hfield]
  split
  · exact ⟨_, _, _, rfl⟩
  · exact ⟨_, _, _, rfl⟩

/-- Every other number is undefined or unbounded. -/
theorem parts_of_isFinite_eq_false {x : Float} (h : x.isFinite = false) :
    FloatParts.ofFloat x = .undefined ∨ ∃ negative, FloatParts.ofFloat x = .infinite negative := by
  have hspecial : @unpackExponent .binary64 x.toModel.toBits.toBitVec = -1#11 := by
    by_contra hones
    have hunpack : (UnpackedFloat.unpack .binary64 x.toModel.toBits.toBitVec).isFinite = false := h
    rw [UnpackedFloat.unpack, if_neg hones] at hunpack
    split at hunpack
    · split at hunpack <;> cases hunpack
    · cases hunpack
  have hfield : x.toBits.toNat / Nat.pow 2 52 % Nat.pow 2 11 = 2047 := by
    rw [← toNat_unpackExponent, hspecial]
    rfl
  simp only [FloatParts.ofFloat, if_pos hfield]
  split
  · exact .inr ⟨_, rfl⟩
  · exact .inl rfl

namespace Represents

variable {x y : Float} {u v : ℚ}

/-- What stands for a number is finite. -/
theorem isFinite (h : Represents x v) : x.isFinite = true := HasValue.isFinite h

/-- A number that represents another one is defined. -/
theorem isUndefined (h : Represents x v) : Scalar.isUndefined x = false := by
  have hle : x ≤ x := float_le_self_iff.mpr fun hnan => by
    rw [Represents, hnan] at h
    cases h
  simpa [Scalar.isUndefined] using hle

/-- Zero stands for zero. -/
theorem zero : Represents 0 0 := HasValue.zero .positive

/-! ### Operations -/

/-- A sum that is not too large is rounded to the nearest number. -/
theorem exists_nearest_add (hx : Represents x u) (hy : Represents y v) (hlt : |u + v| < 2 ^ 1023) :
    ∃ r, Represents (x + y) r ∧ Nearest (u + v) r :=
  HasValue.exists_nearest_add hx hy hlt

/-- A difference that is not too large is rounded to the nearest number. -/
theorem exists_nearest_sub (hx : Represents x u) (hy : Represents y v) (hlt : |u - v| < 2 ^ 1023) :
    ∃ r, Represents (x - y) r ∧ Nearest (u - v) r := by
  rw [sub_eq_add_neg] at hlt ⊢
  obtain ⟨r, hr, hnearest⟩ := HasValue.exists_nearest_add hx (HasValue.neg hy) hlt
  rw [← unpackedSub_eq_add_neg] at hr
  exact ⟨r, hr, hnearest⟩

/-- A product that is not too large is rounded to the nearest number. -/
theorem exists_nearest_mul (hx : Represents x u) (hy : Represents y v) (hlt : |u * v| < 2 ^ 1023) :
    ∃ r, Represents (x * y) r ∧ Nearest (u * v) r :=
  HasValue.exists_nearest_mul hx hy hlt

/-- A quotient that is not too large is rounded to the nearest number. -/
theorem exists_nearest_div (hx : Represents x u) (hy : Represents y v) (hv : v ≠ 0)
    (hlt : |u / v| < 2 ^ 1023) : ∃ r, Represents (x / y) r ∧ Nearest (u / v) r :=
  HasValue.exists_nearest_div hx hy hv hlt

/-- A natural number of more than 53 bits is rounded. -/
theorem exists_nearest_natCast_of_le {n : ℕ} (hlong : 2 ^ 53 ≤ n) (hlt : (n : ℚ) < 2 ^ 1023) :
    ∃ r, Represents (n : Float) r ∧ Nearest n r := by
  have hn : 0 < n := by omega
  have hcast : (n : Float) = Float.ofModel (Float.Model.ofScientific n 0) := by
    show Float.ofScientific n false 0 = _
    rw [Float.ofScientific, dif_neg (by omega)]
    rfl
  have hscientific : UnpackedFloat.ofScientific .binary64 n 0 =
      roundWithAccuracy .binary64 .positive (n * 2 ^ 53) (-53) .exact := by
    have hrange : ¬ (0 : ℤ) < -((2 ^ 11 : ℤ) + n.log2) := by
      have : (0 : ℤ) ≤ n.log2 := Int.natCast_nonneg _
      omega
    rw [UnpackedFloat.ofScientific, dif_neg hn.ne', if_neg (by decide), if_neg hrange,
      if_pos le_rfl]
    simp only [UnpackedFloat.mul, Nat.shiftLeft_eq, Int.toNat_zero, pow_zero, mul_one, add_zero]
    rfl
  have hlog : 53 ≤ n.log2 := (Nat.le_log2 hn.ne').mpr hlong
  have hlog' : (n * 2 ^ 53).log2 = n.log2 + 53 := log2_mul_two_pow hn 53
  have hdescribes : Describes (ExtendedMantissa.ofMantissaAndAccuracy (n * 2 ^ 53) .exact)
      ((n : ℚ) / 2 ^ (-53 : ℤ)) := by
    have hscaled : (n : ℚ) / 2 ^ (-53 : ℤ) = ((n * 2 ^ 53 : ℕ) : ℚ) := by
      rw [zpow_neg, div_inv_eq_mul]
      push_cast
      rfl
    rw [hscaled]
    exact describes_exact _
  obtain ⟨r, hr, hnearest⟩ :=
    exists_nearest_of_describes .positive (m := n * 2 ^ 53) (.inl (by omega))
    rfl (by omega) hdescribes (by rwa [Nat.abs_cast])
  rw [signFactor, one_mul] at hr
  refine ⟨r, ?_, hnearest⟩
  rw [Represents, hcast]
  rwa [← hscientific] at hr

/-- **A natural number** that is not too large is represented by a nearest one. -/
theorem exists_nearest_natCast (n : ℕ) (hlt : (n : ℚ) < 2 ^ 1023) :
    ∃ r, Represents (n : Float) r ∧ Nearest n r := by
  rcases Nat.eq_zero_or_pos n with rfl | hn
  · refine ⟨0, ?_, by simpa using Nearest.self isBinary_zero⟩
    rw [Represents, unpack_natCast_zero]
    exact .zero .positive
  by_cases hshort : n < 2 ^ 53
  · have hlog := log2_lt_of_lt hn hshort
    have hvalue := HasValue.finite .positive (fullMantissa n) ((n.log2 : ℤ) - 52)
      (fullMantissa_pos hn) (canonical_fullMantissa hn hshort) (by omega)
    have hexact : signFactor .positive *
        ((fullMantissa n : ℕ) * (2 : ℚ) ^ ((n.log2 : ℤ) - 52)) = n := by
      have hexponent : ((n.log2 : ℤ) - 52) = -((52 - n.log2 : ℕ) : ℤ) := by omega
      rw [signFactor, one_mul, fullMantissa, hexponent, zpow_neg, zpow_natCast]
      push_cast
      rw [mul_assoc, mul_inv_cancel₀ (by positivity), mul_one]
    rw [hexact] at hvalue
    refine ⟨n, ?_, .self hvalue.isBinary⟩
    rwa [Represents, unpack_natCast hn hshort]
  · exact exists_nearest_natCast_of_le (by omega) hlt

end Represents

/-- A natural number that is not too large is in range. -/
theorem ofInt?_natCast_float {n : ℕ} (hlt : (n : ℚ) < 2 ^ 1023) :
    Scalar.ofInt? (n : ℤ) = some (n : Float) := by
  obtain ⟨v, hv, -⟩ := Represents.exists_nearest_natCast n hlt
  have hinf : (n : Float).isInf = false := HasValue.isInf hv
  have hcast : (Scalar.ofInt? (n : ℤ) : Option Float) =
      if (n : Float).isInf then none else some (n : Float) := rfl
  rw [hcast, hinf]
  rfl

/-! ### Bounds for all numbers -/

/-- A floating point number **within** a power of two represents a number that is no larger. -/
def Within (k : ℕ) (x : Float) : Prop := ∃ v, Represents x v ∧ |v| ≤ 2 ^ k

namespace Within

variable {j k : ℕ} {x y : Float}

/-- A bound may be raised. -/
theorem mono (h : Within j x) (hjk : j ≤ k) : Within k x := by
  obtain ⟨v, hv, hle⟩ := h
  exact ⟨v, hv, hle.trans (pow_le_pow_right₀ one_le_two hjk)⟩

/-- What is bounded is finite. -/
theorem isFinite (h : Within k x) : x.isFinite = true := by
  obtain ⟨v, hv, -⟩ := h
  exact hv.isFinite

/-- Zero is bounded by every power of two. -/
theorem zero (k : ℕ) : Within k 0 := ⟨0, .zero, by simp⟩

/-- What is nearest to a number within a power of two is within the next one. -/
theorem of_nearest {v r : ℚ} (hx : Represents x r) (h : Nearest v r) (hv : |v| ≤ 2 ^ k) :
    Within (k + 1) x := by
  refine ⟨r, hx, h.abs_le.trans ?_⟩
  rw [pow_succ']
  exact mul_le_mul_of_nonneg_left hv zero_le_two

/-- A sum is bounded by four times the bound of its terms: half of that is for rounding. -/
theorem add (hx : Within k x) (hy : Within k y) (hk : k + 1 < 1023) : Within (k + 2) (x + y) := by
  obtain ⟨u, hu, hle⟩ := hx
  obtain ⟨v, hv, hle'⟩ := hy
  have hsum : |u + v| ≤ 2 ^ (k + 1) := by
    rw [pow_succ, mul_two]
    exact (abs_add_le u v).trans (add_le_add hle hle')
  obtain ⟨r, hr, hnearest⟩ := hu.exists_nearest_add hv
    (hsum.trans_lt (pow_lt_pow_right₀ one_lt_two hk))
  exact of_nearest hr hnearest hsum

/-- A difference is bounded by four times the bound of its terms. -/
theorem sub (hx : Within k x) (hy : Within k y) (hk : k + 1 < 1023) : Within (k + 2) (x - y) := by
  obtain ⟨u, hu, hle⟩ := hx
  obtain ⟨v, hv, hle'⟩ := hy
  have hdifference : |u - v| ≤ 2 ^ (k + 1) := by
    rw [pow_succ, mul_two]
    exact (abs_sub u v).trans (add_le_add hle hle')
  obtain ⟨r, hr, hnearest⟩ := hu.exists_nearest_sub hv
    (hdifference.trans_lt (pow_lt_pow_right₀ one_lt_two hk))
  exact of_nearest hr hnearest hdifference

/-- A product is bounded by twice the product of the bounds. -/
theorem mul (hx : Within j x) (hy : Within k y) (hjk : j + k < 1023) :
    Within (j + k + 1) (x * y) := by
  obtain ⟨u, hu, hle⟩ := hx
  obtain ⟨v, hv, hle'⟩ := hy
  have hproduct : |u * v| ≤ 2 ^ (j + k) := by
    rw [abs_mul, pow_add]
    exact mul_le_mul hle hle' (abs_nonneg v) (by positivity)
  obtain ⟨r, hr, hnearest⟩ := hu.exists_nearest_mul hv
    (hproduct.trans_lt (pow_lt_pow_right₀ one_lt_two hjk))
  exact of_nearest hr hnearest hproduct

/-- A natural number is within the next power of two. -/
theorem natCast {n : ℕ} (hn : n ≤ 2 ^ k) (hk : k < 1023) : Within (k + 1) (n : Float) := by
  have hle : (n : ℚ) ≤ 2 ^ k := by exact_mod_cast hn
  obtain ⟨r, hr, hnearest⟩ := Represents.exists_nearest_natCast n
    (hle.trans_lt (pow_lt_pow_right₀ one_lt_two hk))
  exact of_nearest hr hnearest (by rwa [Nat.abs_cast])

end Within

/-! ### Bounds for numbers that are not negative -/

/-- A floating point number **up to** a bound represents a number that is neither negative nor
larger. -/
def UpTo (b : ℚ) (x : Float) : Prop := ∃ v, Represents x v ∧ 0 ≤ v ∧ v ≤ b

namespace UpTo

variable {b c : ℚ} {x y : Float}

/-- A bound may be raised. -/
theorem mono (h : UpTo b x) (hbc : b ≤ c) : UpTo c x := by
  obtain ⟨v, hv, hnonneg, hle⟩ := h
  exact ⟨v, hv, hnonneg, hle.trans hbc⟩

/-- What lies between zero and a power of two is bounded by it. -/
theorem within {k : ℕ} (h : UpTo (2 ^ k) x) : Within k x := by
  obtain ⟨v, hv, hnonneg, hle⟩ := h
  exact ⟨v, hv, by rwa [abs_of_nonneg hnonneg]⟩

/-- What is bounded is a number. -/
theorem isUndefined (h : UpTo b x) : Scalar.isUndefined x = false := by
  obtain ⟨v, hv, -⟩ := h
  exact hv.isUndefined

/-- Zero lies between zero and every bound. -/
theorem zero (hb : 0 ≤ b) : UpTo b 0 := ⟨0, .zero, le_rfl, hb⟩

/-- A number up to a bound is not negative: its sign is that of the number that
it represents. -/
theorem zero_le (h : UpTo b x) : 0 ≤ x := by
  obtain ⟨v, hv, hnonneg, -⟩ := h
  rw [Represents] at hv
  rw [float_le_iff, unpack_zero]
  generalize x.toModel.unpack = u at hv ⊢
  cases hv with
  | zero s => rfl
  | finite s m e hm _ _ =>
      cases s with
      | positive => rfl
      | negative =>
          have hpos : (0 : ℚ) < m * 2 ^ e := by positivity
          rw [signFactor, neg_one_mul] at hnonneg
          linarith only [hpos, hnonneg]

/-- What is nearest to a number that is not negative is at most twice as large. -/
theorem of_nearest {v r : ℚ} (hx : Represents x r) (h : Nearest v r) (hnonneg : 0 ≤ v)
    (hv : v ≤ b) : UpTo (2 * b) x := by
  have hle := h.abs_le
  rw [abs_of_nonneg hnonneg, abs_of_nonneg (h.nonneg hnonneg)] at hle
  exact ⟨r, hx, h.nonneg hnonneg, hle.trans (mul_le_mul_of_nonneg_left hv zero_le_two)⟩

/-- A sum of two numbers that are not negative exceeds the exact one by no more than either of
them: the other one is a binary number that is as far from the exact sum. -/
theorem exists_represents_add {u v : ℚ} (hx : Represents x u) (hy : Represents y v) (hu : 0 ≤ u)
    (hv : 0 ≤ v) (hlt : u + v < 2 ^ 1023) :
    ∃ r, Represents (x + y) r ∧ 0 ≤ r ∧ r ≤ u + v + u ∧ r ≤ u + v + v := by
  have hsum : 0 ≤ u + v := add_nonneg hu hv
  obtain ⟨r, hr, hnearest⟩ := hx.exists_nearest_add hy ((abs_of_nonneg hsum).trans_lt hlt)
  have hleft := hnearest.le u (HasValue.isBinary hx)
  have hright := hnearest.le v (HasValue.isBinary hy)
  rw [sub_add_cancel_left, abs_neg, abs_of_nonneg hv] at hleft
  rw [sub_add_cancel_right, abs_neg, abs_of_nonneg hu] at hright
  refine ⟨r, hr, hnearest.nonneg hsum, ?_, ?_⟩
  · linarith only [le_abs_self (r - (u + v)), hright]
  · linarith only [le_abs_self (r - (u + v)), hleft]

/-- **A sum of sums** of `m` and of `n` numbers. The lesser sum counts twice, and twice the
lesser square is no more than the square of `m + n` has beside the two squares. -/
theorem add {m n : ℕ} (hb : 0 ≤ b) (hx : UpTo ((m : ℚ) ^ 2 * b) x) (hy : UpTo ((n : ℚ) ^ 2 * b) y)
    (hlt : ((m + n : ℕ) : ℚ) ^ 2 * b < 2 ^ 1023) : UpTo (((m + n : ℕ) : ℚ) ^ 2 * b) (x + y) := by
  obtain ⟨u, hu, hu₀, hle⟩ := hx
  obtain ⟨v, hv, hv₀, hle'⟩ := hy
  have hm : (0 : ℚ) ≤ m := Nat.cast_nonneg m
  have hn : (0 : ℚ) ≤ n := Nat.cast_nonneg n
  have hcross : 0 ≤ (m : ℚ) * n * b := mul_nonneg (mul_nonneg hm hn) hb
  have hsquare : ((m + n : ℕ) : ℚ) ^ 2 * b = m ^ 2 * b + n ^ 2 * b + 2 * (m * n * b) := by
    push_cast
    ring
  rw [hsquare] at hlt ⊢
  obtain ⟨r, hr, hr₀, hleft, hright⟩ := exists_represents_add hu hv hu₀ hv₀
    (lt_of_le_of_lt (by linarith only [hle, hle', hcross]) hlt)
  refine ⟨r, hr, hr₀, ?_⟩
  rcases le_total (m : ℚ) n with hmn | hmn
  · have hlesser : (m : ℚ) ^ 2 * b ≤ m * n * b := by
      rw [sq]
      exact mul_le_mul_of_nonneg_right (mul_le_mul_of_nonneg_left hmn hm) hb
    linarith only [hle, hle', hleft, hlesser, hcross]
  · have hlesser : (n : ℚ) ^ 2 * b ≤ m * n * b := by
      rw [sq]
      exact mul_le_mul_of_nonneg_right (mul_le_mul_of_nonneg_right hmn hn) hb
    linarith only [hle, hle', hright, hlesser, hcross]

/-- A quotient by a natural number other than zero: neither the conversion of the number nor
the division loses more than a factor of two. -/
theorem div_natCast {n : ℕ} (hx : UpTo (n * b) x) (hb : 0 ≤ b) (hlt : 2 * b < 2 ^ 1023) (hn : 0 < n)
    (hlarge : (n : ℚ) < 2 ^ 1023) : UpTo (2 * (2 * b)) (x / (n : Float)) := by
  obtain ⟨u, hu, hu₀, hle⟩ := hx
  obtain ⟨v, hv, hnearest⟩ := Represents.exists_nearest_natCast n hlarge
  have hn' : (n : ℚ) < 2 * v := hnearest.natCast_lt hn
  have hv₀ : 0 < v := by
    have : (0 : ℚ) < n := by exact_mod_cast hn
    linarith only [this, hn']
  have hproduct : (n : ℚ) * b ≤ 2 * v * b := mul_le_mul_of_nonneg_right hn'.le hb
  have hquotient : u / v ≤ 2 * b := (div_le_iff₀ hv₀).mpr (by linarith only [hle, hproduct])
  have hnonneg : 0 ≤ u / v := div_nonneg hu₀ hv₀.le
  obtain ⟨r, hr, hnear⟩ := hu.exists_nearest_div hv hv₀.ne'
    (by rw [abs_of_nonneg hnonneg]; exact hquotient.trans_lt hlt)
  exact of_nearest hr hnear hnonneg hquotient

/-- A natural number at most doubles when it is converted. -/
theorem natCast {n : ℕ} (hlt : (n : ℚ) < 2 ^ 1023) : UpTo (2 * n) (n : Float) := by
  obtain ⟨v, hv, hnearest⟩ := Represents.exists_nearest_natCast n hlt
  exact of_nearest hv hnearest n.cast_nonneg le_rfl

/-- A part of a natural number, as a share of it. -/
theorem natCast_div_natCast {part whole : ℕ} (hle : part ≤ whole) (hpos : 0 < whole)
    (hlt : (whole : ℚ) < 2 ^ 1023) : UpTo (2 * (2 * 2)) ((part : Float) / (whole : Float)) := by
  have hle' : (part : ℚ) ≤ whole := by exact_mod_cast hle
  have hpart : UpTo (whole * 2) (part : Float) :=
    (natCast (hle'.trans_lt hlt)).mono (by linarith only [hle'])
  exact hpart.div_natCast zero_le_two (lt_of_eq_of_lt (by norm_num : (2 : ℚ) * 2 = 2 ^ 2)
    (pow_lt_pow_right₀ one_lt_two (by norm_num))) hpos hlt

end UpTo

/-- A square is not negative. -/
theorem Within.mul_self {k : ℕ} {x : Float} (h : Within k x) (hk : k + k < 1023) :
    UpTo (2 ^ (k + k + 1)) (x * x) := by
  obtain ⟨v, hv, hle⟩ := h
  have hsquare : v * v ≤ 2 ^ (k + k) := by
    rw [← abs_mul_abs_self, pow_add]
    exact mul_le_mul hle hle (abs_nonneg v) (by positivity)
  obtain ⟨r, hr, hnearest⟩ := hv.exists_nearest_mul hv (by
    rw [abs_mul_self]
    exact hsquare.trans_lt (pow_lt_pow_right₀ one_lt_two hk))
  rw [pow_succ']
  exact UpTo.of_nearest hr hnearest (mul_self_nonneg v) hsquare

end Linkage
