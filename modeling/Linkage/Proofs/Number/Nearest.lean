import Mathlib
import Linkage.Proofs.Number.Rounding

/-!
# Rounding to the nearest number

A mantissa whose bits are cut off is kept together with two bits, which tell whether what was
cut off reaches one half of the last place and whether it is anything else. That is enough to
round to the nearest mantissa. So the result of a rounding is at most half a unit of its last
place away from the exact number, and no binary number of 53 bits is nearer.

The last place is that of the exact number, so numbers with a finer last place are smaller than
the power of two below the exact number, which is itself a number of 53 bits.

## Main results

* `Describes.abs_roundedMantissa_sub_le`: a mantissa is rounded by at most one half.
* `nearest_of_abs_sub_le`: what is half a unit away is nearest.
* `exists_nearest_of_describes`: the result of a rounding is nearest to the exact number.
* `Nearest.abs_le`, `Nearest.ge_of_isBinary`: bounds for the result of a rounding.
-/

namespace Linkage

open Float.Model Float.Model.UnpackedFloat

/-! ### Rounding a mantissa -/

/-- The number of halves that a mantissa and its round bit stand for. -/
def halves (x : ExtendedMantissa) : ℕ := 2 * x.mantissa + x.roundBit.toNat

/-- An extended mantissa **describes** a number when it has as many whole halves as that, and
the sticky bit tells whether there is more. -/
def Describes (x : ExtendedMantissa) (w : ℚ) : Prop :=
  if x.stickyBit then halves x < 2 * w ∧ 2 * w < halves x + 1 else 2 * w = halves x

/-- Cutting off a bit leaves as many halves as there were units. -/
theorem halves_shiftRightOne (x : ExtendedMantissa) : halves x.shiftRightOne = x.mantissa := by
  have hbit : (x.mantissa % 2 != 0).toNat = x.mantissa % 2 := by
    rcases Nat.mod_two_eq_zero_or_one x.mantissa with h | h <;> rw [h] <;> rfl
  simp only [halves, ExtendedMantissa.shiftRightOne, hbit]
  omega

/-- Cutting off a bit halves the number. -/
theorem Describes.shiftRightOne {x : ExtendedMantissa} {w : ℚ} (h : Describes x w) :
    Describes x.shiftRightOne (w / 2) := by
  rw [Describes, halves_shiftRightOne]
  obtain ⟨m, _ | _, _ | _⟩ := x <;>
    simp [Describes, halves, ExtendedMantissa.shiftRightOne] at h ⊢
  · linarith
  · constructor <;> linarith [h.1, h.2]
  · constructor <;> linarith
  · constructor <;> linarith [h.1, h.2]

/-- Cutting off bits divides the number by a power of two. -/
theorem Describes.shiftRight {x : ExtendedMantissa} {w : ℚ} (h : Describes x w) (k : ℕ) :
    Describes (x >>> k) (w / 2 ^ k) := by
  induction k with
  | zero => simpa [HShiftRight.hShiftRight, Nat.repeat] using h
  | succ k ih =>
      have hstep : x >>> (k + 1) = (x >>> k).shiftRightOne := rfl
      rw [hstep, pow_succ, ← div_div]
      exact ih.shiftRightOne

/-- The mantissa is the whole part of the number. -/
theorem Describes.mantissa_le {x : ExtendedMantissa} {w : ℚ} (h : Describes x w) :
    (x.mantissa : ℚ) ≤ w := by
  have hhalves : 2 * (x.mantissa : ℚ) ≤ halves x := by
    exact_mod_cast Nat.le_add_right (2 * x.mantissa) x.roundBit.toNat
  rw [Describes] at h
  split at h <;> linarith

/-- **A mantissa is rounded by at most one half.** -/
theorem Describes.abs_roundedMantissa_sub_le {x : ExtendedMantissa} {w : ℚ} (h : Describes x w) :
    |(x.roundedMantissa : ℚ) - w| ≤ 1 / 2 := by
  rw [abs_le]
  obtain ⟨m, _ | _, _ | _⟩ := x <;>
    simp [Describes, halves, ExtendedMantissa.roundedMantissa, ExtendedMantissa.accuracy,
      Accuracy.roundToNearestEven] at h ⊢
  · constructor <;> linarith
  · constructor <;> linarith [h.1, h.2]
  -- A half goes to the even neighbour, which is half a unit away as well.
  · have hlow : (0 : ℚ) ≤ (m % 2 : ℕ) := Nat.cast_nonneg _
    have hhigh : ((m % 2 : ℕ) : ℚ) ≤ 1 := by
      exact_mod_cast Nat.le_of_lt_succ (Nat.mod_lt m two_pos)
    constructor <;> linarith
  · constructor <;> linarith [h.1, h.2]

/-- A mantissa of which nothing was cut off describes itself. -/
theorem describes_exact (m : ℕ) :
    Describes (ExtendedMantissa.ofMantissaAndAccuracy m .exact) m := by
  simp [Describes, halves, ExtendedMantissa.ofMantissaAndAccuracy]

/-- A quotient is described by its whole part and what is left over. -/
theorem describes_accuracyOfFraction (m : ℕ) {n : ℕ} (hn : 0 < n) :
    Describes (ExtendedMantissa.ofMantissaAndAccuracy (m / n) (accuracyOfFraction (m % n) n))
      (m / n) := by
  have hpos : (0 : ℚ) < n := Nat.cast_pos.mpr hn
  obtain ⟨q, r, hr, rfl⟩ : ∃ q r, r < n ∧ m = n * q + r :=
    ⟨m / n, m % n, Nat.mod_lt m hn, (Nat.div_add_mod m n).symm⟩
  have hwhole : (n * q + r) / n = q := by rw [Nat.mul_add_div hn, Nat.div_eq_of_lt hr, add_zero]
  have hrest : (n * q + r) % n = r := by rw [Nat.mul_add_mod, Nat.mod_eq_of_lt hr]
  have hdivision : 2 * (((n * q + r : ℕ) : ℚ) / n) = 2 * q + 2 * r / n := by
    push_cast
    field_simp
  have hlt : 2 * (r : ℚ) / n < 2 := by
    rw [div_lt_iff₀ hpos]
    exact_mod_cast Nat.mul_lt_mul_of_pos_left hr two_pos
  rw [hwhole, hrest, accuracyOfFraction, Describes, hdivision]
  rcases Nat.eq_zero_or_pos r with rfl | hsome
  · simp [halves, ExtendedMantissa.ofMantissaAndAccuracy]
  · have hsome' : 0 < 2 * (r : ℚ) / n := by positivity
    rw [if_neg hsome.ne']
    rcases lt_trichotomy (2 * r) n with hcompare | hcompare | hcompare
    · have hhalf : 2 * (r : ℚ) / n < 1 := (div_lt_one hpos).mpr (by exact_mod_cast hcompare)
      simp [Nat.compare_eq_lt.mpr hcompare, ExtendedMantissa.ofMantissaAndAccuracy, halves,
        hsome', hhalf]
    · have hhalf : 2 * (r : ℚ) / n = 1 :=
        (div_eq_one_iff_eq hpos.ne').mpr (by exact_mod_cast hcompare)
      simp [Nat.compare_eq_eq.mpr hcompare, ExtendedMantissa.ofMantissaAndAccuracy, halves, hhalf]
    · have hhalf : 1 < 2 * (r : ℚ) / n := (one_lt_div hpos).mpr (by exact_mod_cast hcompare)
      simp [Nat.compare_eq_gt.mpr hcompare, ExtendedMantissa.ofMantissaAndAccuracy, halves, hhalf]
      linarith

/-! ### Binary numbers -/

/-- A **binary number** has a mantissa of at most 53 bits and an exponent that is not below the
least one. -/
def IsBinary (f : ℚ) : Prop := ∃ (n e : ℤ), |n| < 2 ^ 53 ∧ -1074 ≤ e ∧ f = n * 2 ^ e

/-- The negative of a binary number is one. -/
theorem IsBinary.neg {f : ℚ} (h : IsBinary f) : IsBinary (-f) := by
  obtain ⟨n, e, hn, he, rfl⟩ := h
  exact ⟨-n, e, by rwa [abs_neg], he, by push_cast; ring⟩

/-- Zero is a binary number. -/
theorem isBinary_zero : IsBinary 0 := ⟨0, 0, by norm_num, by norm_num, by norm_num⟩

/-- A power of two is a binary number. -/
theorem isBinary_two_pow (k : ℕ) : IsBinary (2 ^ k) :=
  ⟨1, k, by norm_num, by omega, by rw [zpow_natCast, Int.cast_one, one_mul]⟩

/-- A binary number is **nearest** to a number when no binary number is nearer. -/
structure Nearest (v r : ℚ) : Prop where
  /-- It is a binary number. -/
  binary : IsBinary r
  /-- No binary number is nearer. -/
  le : ∀ f, IsBinary f → |r - v| ≤ |f - v|

namespace Nearest

variable {v r : ℚ} (h : Nearest v r)

/-- A binary number is nearest to itself. -/
theorem self (hv : IsBinary v) : Nearest v v := ⟨hv, fun f _ => by simp⟩

include h

/-- Negative numbers are rounded like positive ones. -/
theorem neg : Nearest (-v) (-r) := by
  have hswap : ∀ a b : ℚ, |-a - -b| = |a - b| := fun a b => by rw [neg_sub_neg, abs_sub_comm]
  refine ⟨h.binary.neg, fun f hf => ?_⟩
  rw [hswap, ← neg_neg f, hswap]
  exact h.le (-f) hf.neg

/-- The result is at most twice as large: zero is not nearer. -/
theorem abs_le : |r| ≤ 2 * |v| := by
  have hzero := h.le 0 isBinary_zero
  rw [zero_sub, abs_neg] at hzero
  have := abs_sub_abs_le_abs_sub r v
  linarith

/-- The result is at least as large as every binary number that the number is as large as. -/
theorem ge_of_isBinary {f : ℚ} (hf : IsBinary f) (hv : f ≤ v) : f ≤ r := by
  have hnear := h.le f hf
  rw [abs_sub_comm f v, abs_of_nonneg (sub_nonneg.mpr hv)] at hnear
  linarith [neg_le_of_abs_le hnear]

/-- The result is not negative when the number is not. -/
theorem nonneg (hv : 0 ≤ v) : 0 ≤ r := h.ge_of_isBinary isBinary_zero hv

end Nearest

/-- The result is more than half of a natural number: a power of two lies in between. -/
theorem Nearest.natCast_lt {n : ℕ} {r : ℚ} (h : Nearest n r) (hn : 0 < n) : (n : ℚ) < 2 * r := by
  have hpower : (2 : ℚ) ^ n.log2 ≤ n := by exact_mod_cast Nat.log2_self_le hn.ne'
  have hlarge := h.ge_of_isBinary (isBinary_two_pow _) hpower
  calc (n : ℚ) < 2 ^ (n.log2 + 1) := by exact_mod_cast Nat.lt_log2_self
    _ = 2 * 2 ^ n.log2 := pow_succ' 2 _
    _ ≤ 2 * r := mul_le_mul_of_nonneg_left hlarge zero_le_two

/-- Other multiples of a unit are not nearer than the one that is half a unit away. -/
theorem abs_sub_le_of_multiple {v : ℚ} {n t : ℤ} (hhalf : |n * 2 ^ t - v| ≤ (2 : ℚ) ^ t / 2)
    (z : ℤ) : |n * 2 ^ t - v| ≤ |z * 2 ^ t - v| := by
  have hpos : (0 : ℚ) < 2 ^ t := by positivity
  rcases eq_or_ne z n with rfl | hne
  · exact le_rfl
  · have hunit : (2 : ℚ) ^ t ≤ |(z : ℚ) * 2 ^ t - n * 2 ^ t| := by
      rw [← sub_mul, abs_mul, abs_of_pos hpos]
      have hone : (1 : ℚ) ≤ |(z : ℚ) - n| := by exact_mod_cast Int.one_le_abs (sub_ne_zero.mpr hne)
      exact le_mul_of_one_le_left hpos.le hone
    have htriangle := abs_sub_le ((z : ℚ) * 2 ^ t) v (n * 2 ^ t)
    rw [abs_sub_comm v] at htriangle
    linarith

/-- A number is not nearer when a larger one below the exact number is not. -/
theorem abs_sub_le_of_larger {v r g f : ℚ} (hpositive : |r - v| ≤ |g - v|)
    (hnegative : |r - v| ≤ |-g - v|) (hg : g ≤ |v|) (hf : |f| ≤ g) : |r - v| ≤ |f - v| := by
  have hpower : |r - v| ≤ |v| - g := by
    rcases abs_cases v with ⟨hsign, -⟩ | ⟨hsign, -⟩ <;> rw [hsign] at hg ⊢
    · rwa [abs_sub_comm g, abs_of_nonneg (sub_nonneg.mpr hg)] at hpositive
    · rw [abs_of_nonneg (by linarith : 0 ≤ -g - v)] at hnegative
      linarith
  have hbetween := abs_sub_abs_le_abs_sub v f
  rw [abs_sub_comm v] at hbetween
  linarith

/-- A number with a finer last place is at most the least number of 53 bits. -/
theorem abs_mul_two_zpow_le {n e t : ℤ} (hn : |n| < 2 ^ 53) (he : e < t) :
    |(n : ℚ) * 2 ^ e| ≤ 2 ^ 52 * 2 ^ t := by
  have hn' : |(n : ℚ)| ≤ 2 ^ 53 := by exact_mod_cast hn.le
  have hpower : (2 : ℚ) ^ e ≤ 2 ^ (t - 1) := zpow_le_zpow_right₀ (by norm_num) (by omega)
  have hhalve : (2 : ℚ) ^ (t - 1) = 2 ^ t / 2 := by rw [zpow_sub_one₀ two_ne_zero]; ring
  rw [abs_mul, abs_of_pos (by positivity : (0 : ℚ) < 2 ^ e)]
  calc |(n : ℚ)| * 2 ^ e ≤ 2 ^ 53 * (2 ^ t / 2) := by
        rw [← hhalve]
        exact mul_le_mul hn' hpower (by positivity) (by positivity)
    _ = 2 ^ 52 * 2 ^ t := by ring

/-- **The number half a unit away is nearest.** The unit is a power of two, and the exact
number has 53 bits before it, unless it is the least one. -/
theorem nearest_of_abs_sub_le {v : ℚ} {n t : ℤ} (hbinary : IsBinary (n * 2 ^ t))
    (hhalf : |n * 2 ^ t - v| ≤ 2 ^ t / 2) (hfull : (2 ^ 52 : ℚ) * 2 ^ t ≤ |v| ∨ t = -1074) :
    Nearest v (n * 2 ^ t) := by
  refine ⟨hbinary, ?_⟩
  rintro f ⟨z, e, hz, he, rfl⟩
  rcases le_or_gt t e with hte | hte
  · obtain ⟨k, rfl⟩ : ∃ k : ℕ, e = t + k := ⟨(e - t).toNat, by omega⟩
    have hsplit : (z : ℚ) * 2 ^ (t + (k : ℤ)) = ((z * 2 ^ k : ℤ) : ℚ) * 2 ^ t := by
      rw [zpow_add₀ two_ne_zero, zpow_natCast]
      push_cast
      ring
    rw [hsplit]
    exact abs_sub_le_of_multiple hhalf _
  -- A number with a finer last place lies below the power of two that the exact number
  -- reaches.
  · have hpositive := abs_sub_le_of_multiple hhalf (2 ^ 52)
    have hnegative := abs_sub_le_of_multiple hhalf (-2 ^ 52)
    rw [Int.cast_neg, neg_mul] at hnegative
    rw [Int.cast_pow, Int.cast_ofNat] at hpositive hnegative
    exact abs_sub_le_of_larger hpositive hnegative (hfull.resolve_right (by omega))
      (abs_mul_two_zpow_le hz hte)

/-! ### The result of a rounding -/

/-- A sign as a factor. -/
def signFactor : Sign → ℚ
  | .negative => -1
  | .positive => 1

/-- The other sign has the other factor. -/
theorem signFactor_neg (s : Sign) : signFactor (-s) = -signFactor s := by
  cases s with
  | negative => exact (neg_neg 1).symm
  | positive => rfl

/-- The factor of a product of signs is the product of the factors. -/
theorem signFactor_mul (s t : Sign) : signFactor (s * t) = signFactor s * signFactor t := by
  cases s <;> cases t
  · exact (by norm_num : (1 : ℚ) = -1 * -1)
  · exact (by norm_num : (-1 : ℚ) = -1 * 1)
  · exact (by norm_num : (-1 : ℚ) = 1 * -1)
  · exact (by norm_num : (1 : ℚ) = 1 * 1)

/-- The factor of a quotient of signs is the quotient of the factors. -/
theorem signFactor_div (s t : Sign) : signFactor (s / t) = signFactor s / signFactor t := by
  cases s <;> cases t
  · exact (by norm_num : (1 : ℚ) = -1 / -1)
  · exact (by norm_num : (-1 : ℚ) = -1 / 1)
  · exact (by norm_num : (-1 : ℚ) = 1 / -1)
  · exact (by norm_num : (1 : ℚ) = 1 / 1)

/-- No sign has the factor zero. -/
theorem signFactor_ne_zero (s : Sign) : signFactor s ≠ 0 := by
  cases s
  · exact (by norm_num : (-1 : ℚ) ≠ 0)
  · exact (by norm_num : (1 : ℚ) ≠ 0)

/-- A sign does not change the size of a number. -/
theorem abs_signFactor_mul (s : Sign) (q : ℚ) : |signFactor s * q| = |q| := by
  cases s <;> simp [signFactor]

/-- Numbers with a sign are rounded like those without. -/
theorem Nearest.signFactor_mul {v r : ℚ} (h : Nearest v r) (s : Sign) :
    Nearest (signFactor s * v) (signFactor s * r) := by
  cases s with
  | negative => simpa [signFactor] using h.neg
  | positive => simpa [signFactor] using h

section

variable {m : ℕ} {e : ℤ}

/-- A canonical form stands for a binary number. -/
theorem Canonical.isBinary (h : Canonical m e) : IsBinary (m * 2 ^ e) :=
  ⟨m, e, by rw [Nat.abs_cast]; exact_mod_cast h.lt, h.least, by push_cast; ring⟩

/-- A number in canonical form that is not too large has an exponent within range. -/
theorem Canonical.exponent_le (h : Canonical m e) (hlt : (m : ℚ) * 2 ^ e < 2 ^ 1024) : e ≤ 971 := by
  rcases h.full with hfull | rfl
  · by_contra hlarge
    have hpower : (2 : ℚ) ^ (972 : ℤ) ≤ 2 ^ e := zpow_le_zpow_right₀ (by norm_num) (by omega)
    have hfull' : (2 : ℚ) ^ 52 ≤ m := by exact_mod_cast hfull
    have hproduct : (2 : ℚ) ^ 52 * 2 ^ (972 : ℤ) ≤ m * 2 ^ e :=
      mul_le_mul hfull' hpower (by positivity) (by positivity)
    have hsplit : (2 : ℚ) ^ 1024 = 2 ^ 52 * 2 ^ (972 : ℤ) := by
      rw [← zpow_natCast, ← zpow_natCast, ← zpow_add₀ two_ne_zero]
      rfl
    exact absurd hlt (not_lt.mpr (hsplit ▸ hproduct))
  · decide

end

/-- A floating point number **has an exact value** when it is zero, or finite in canonical form
and within range. -/
inductive HasValue : UnpackedFloat → ℚ → Prop
  | zero (s : Sign) : HasValue (.zero s) 0
  | finite (s : Sign) (m : ℕ) (e : ℤ) (hm : 0 < m) (h : Canonical m e) (he : e ≤ 971) :
      HasValue (.finite s m e hm) (signFactor s * (m * 2 ^ e))

namespace HasValue

variable {x : UnpackedFloat} {v : ℚ} (h : HasValue x v)
include h

/-- The value of an unpacked float is a binary number. -/
theorem isBinary : IsBinary v := by
  cases h with
  | zero s => exact isBinary_zero
  | finite s m e hm h he =>
      cases s with
      | negative => simpa [signFactor] using h.isBinary.neg
      | positive => simpa [signFactor] using h.isBinary

/-- A number with an exact value is read back as it is written. -/
theorem unpack_pack : (Float.Model.pack x).unpack = x := by
  cases h with
  | zero s => exact unpack_pack_zero s
  | finite s m e hm h he => exact h.unpack_pack s hm he

/-- An unpacked float with a value is finite. -/
theorem isFinite : x.isFinite = true := by
  cases h <;> rfl

/-- An unpacked float with a value is not infinite. -/
theorem isInf : x.isInf = false := by
  cases h <;> rfl

/-- The negative of an unpacked float has the negative value. -/
theorem neg : HasValue x.neg (-v) := by
  cases h with
  | zero s => simpa [UnpackedFloat.neg] using HasValue.zero (-s)
  | finite s m e hm h he =>
      rw [← neg_mul, ← signFactor_neg]
      exact .finite (-s) m e hm h he

end HasValue

/-- **The result of a rounding is nearest** to the number that its mantissa describes, which
has to be small enough. -/
theorem exists_nearest_of_describes (s : Sign) {m : ℕ} {e t : ℤ} {a : Accuracy} {v : ℚ}
    (hm : 0 < m ∨ t = -1074) (ht : t = max ((m.log2 : ℤ) + e - 52) (-1074)) (he : e ≤ t)
    (hdescribes : Describes (ExtendedMantissa.ofMantissaAndAccuracy m a) (v / 2 ^ e))
    (hlt : |v| < 2 ^ 1023) :
    ∃ r, HasValue (Float.Model.pack (roundWithAccuracy .binary64 s m e a)).unpack
      (signFactor s * r) ∧
      Nearest v r := by
  have hpos : (0 : ℚ) < 2 ^ t := by positivity
  obtain ⟨k, rfl⟩ : ∃ k : ℕ, t = e + k := ⟨(t - e).toNat, by omega⟩
  have hk : (e + (k : ℤ) - e).toNat = k := by omega
  have hcut := hdescribes.shiftRight k
  rw [div_div, ← zpow_natCast, ← zpow_add₀ two_ne_zero] at hcut
  have hhalf : |((roundedAt m a k : ℕ) : ℤ) * 2 ^ (e + (k : ℤ)) - v| ≤
      (2 : ℚ) ^ (e + (k : ℤ)) / 2 := by
    have hround := mul_le_mul_of_nonneg_right hcut.abs_roundedMantissa_sub_le hpos.le
    rwa [← abs_of_pos hpos, ← abs_mul, sub_mul, abs_of_pos hpos, div_mul_cancel₀ _ hpos.ne',
      one_div_mul_eq_div, ← roundedAt] at hround
  have hfull : (2 ^ 52 : ℚ) * 2 ^ (e + (k : ℤ)) ≤ |v| ∨ e + (k : ℤ) = -1074 := by
    refine (cut_bounds hm ht he).2.imp_left fun h => ?_
    have hwhole := hcut.mantissa_le
    rw [mantissa_ofMantissaAndAccuracy_shiftRight, le_div_iff₀ hpos] at hwhole
    rw [hk] at h
    have h' : (2 ^ 52 : ℚ) ≤ (m / 2 ^ k : ℕ) := by exact_mod_cast h
    exact ((mul_le_mul_of_nonneg_right h' hpos.le).trans hwhole).trans (le_abs_self v)
  rcases roundWithAccuracy_cases s a hm ht he with
    ⟨hzero, hresult⟩ | ⟨r, d, hr, hresult, hcanonical, hcases⟩
  · rw [hk] at hzero
    rw [hzero] at hhalf
    have hnearest := nearest_of_abs_sub_le (n := 0) (by simpa using isBinary_zero)
      (by simpa using hhalf) hfull
    rw [hresult, unpack_pack_zero]
    exact ⟨0, by simpa using HasValue.zero s, by simpa using hnearest⟩
  · have hproduct : ((roundedAt m a k : ℕ) : ℤ) * (2 : ℚ) ^ (e + (k : ℤ)) = r * 2 ^ d := by
      rw [hk] at hcases
      rcases hcases with ⟨rfl, hround⟩ | ⟨rfl, rfl, hround⟩ <;> rw [hround]
      · rfl
      · rw [zpow_add₀ two_ne_zero (e + (k : ℤ))]
        push_cast
        ring
    have hnearest := nearest_of_abs_sub_le (hproduct ▸ hcanonical.isBinary) hhalf hfull
    rw [hproduct] at hnearest
    have hle := hnearest.abs_le
    rw [abs_of_nonneg (by positivity)] at hle
    have hsmall : (r : ℚ) * 2 ^ d < 2 ^ 1024 := by
      rw [pow_succ']
      exact hle.trans_lt (mul_lt_mul_of_pos_left hlt two_pos)
    have hvalue := HasValue.finite s r d hr hcanonical (hcanonical.exponent_le hsmall)
    rw [hresult, hvalue.unpack_pack]
    exact ⟨r * 2 ^ d, hvalue, hnearest⟩

end Linkage
