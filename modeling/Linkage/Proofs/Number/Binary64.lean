import Mathlib
import Linkage.Proofs.Number.ExactScalar
import Linkage.Proofs.Number.Rounding

/-!
# Laws of floating point numbers

Binary floating point does not satisfy the laws of exact numbers, since its sums round. What
holds of it is proved here: its order is transitive, and total up to undefined values, and a
quotient of two natural numbers of which the first is at most the second is a share, as long as
the natural numbers have at most 53 bits. Beyond that they round themselves, and the quotient
of two unbounded values is undefined.

## Main results

* `PreorderedScalar Float`, `TotalScalar Float`: the order.
* `unpack_natCast`: a natural number of at most 53 bits is represented exactly.
* `isShare_natCast_div`: a quotient of natural numbers that is a share.
-/

namespace Linkage

open Float.Model Float.Model.UnpackedFloat

/-! ### The order -/

/-- One float is at most another when the comparison of what they unpack to says so. -/
theorem float_le_iff {a b : Float} :
    a ≤ b ↔ (a.toModel.unpack.compare b.toModel.unpack).any (·.isLE) = true := by
  show decide (a.toModel ≤ b.toModel) = true ↔ _
  rw [decide_eq_true_iff]
  exact Iff.rfl

/-- One float is below another when the comparison of what they unpack to says so. -/
theorem float_lt_iff {a b : Float} :
    a < b ↔ a.toModel.unpack.compare b.toModel.unpack = some .lt := by
  show decide (a.toModel < b.toModel) = true ↔ _
  rw [decide_eq_true_iff]
  exact beq_iff_eq

/-- Numbers compare unless one of them is undefined. -/
theorem compare_eq_none_iff {a b : UnpackedFloat} :
    a.compare b = none ↔ a = .notANumber ∨ b = .notANumber := by
  rcases a with (_ | _) | _ | _ | ⟨_ | _, m, e, hm⟩ <;>
    rcases b with (_ | _) | _ | _ | ⟨_ | _, n, d, hn⟩ <;> simp [UnpackedFloat.compare]

/-- Signs compare the other way round when they are exchanged. -/
theorem compare_sign_swap (s t : Sign) : (compare s t).swap = compare t s := by
  cases s <;> cases t <;> rfl

/-- Comparing the other way around swaps the result. -/
theorem compare_swap (a b : UnpackedFloat) : b.compare a = (a.compare b).map Ordering.swap := by
  rcases a with (_ | _) | _ | _ | ⟨_ | _, m, e, hm⟩ <;>
    rcases b with (_ | _) | _ | _ | ⟨_ | _, n, d, hn⟩ <;>
    simp [UnpackedFloat.compare, compare_sign_swap, Ordering.swap_then, Int.compare_swap,
      Nat.compare_swap]

/-- Numbers that are not undefined compare. -/
theorem exists_compare {a b : UnpackedFloat} (ha : a ≠ .notANumber) (hb : b ≠ .notANumber) :
    ∃ o, a.compare b = some o :=
  Option.ne_none_iff_exists'.mp fun h => (compare_eq_none_iff.mp h).elim ha hb

/-- Undefined numbers are not compared. -/
theorem ne_notANumber_of_le {a b : Float} (h : a ≤ b) :
    a.toModel.unpack ≠ .notANumber ∧ b.toModel.unpack ≠ .notANumber := by
  rw [float_le_iff] at h
  have hsome : a.toModel.unpack.compare b.toModel.unpack ≠ none := fun hnone => by
    rw [hnone] at h
    exact Bool.noConfusion h
  rwa [Ne, compare_eq_none_iff, not_or] at hsome

/-- A number that is not undefined is at most itself: the result of comparing it with itself is
its own swap. -/
theorem float_le_self_iff {a : Float} : a ≤ a ↔ a.toModel.unpack ≠ .notANumber := by
  refine ⟨fun h => (ne_notANumber_of_le h).1, fun h => ?_⟩
  obtain ⟨o, ho⟩ := exists_compare h h
  have hswap := compare_swap a.toModel.unpack a.toModel.unpack
  rw [ho, Option.map_some, Option.some.injEq] at hswap
  rw [float_le_iff, ho]
  cases o with
  | lt => cases hswap
  | eq => rfl
  | gt => cases hswap

/-- Numbers that are compared are defined. -/
theorem float_defined_of_le {a b : Float} (h : a ≤ b) : a ≤ a ∧ b ≤ b :=
  (ne_notANumber_of_le h).imp float_le_self_iff.mpr float_le_self_iff.mpr

/-- The place of a number in the order. The sign counts first, then the exponent, then the
mantissa; below zero the last two count the other way around. -/
def orderRank : UnpackedFloat → ℤ ×ₗ ℤ ×ₗ ℤ
  | .infinity .negative => toLex (-2, toLex (0, 0))
  | .finite .negative m e _ => toLex (-1, toLex (-e, -m))
  | .zero _ => toLex (0, toLex (0, 0))
  | .finite .positive m e _ => toLex (1, toLex (e, m))
  | .infinity .positive => toLex (2, toLex (0, 0))
  | .notANumber => toLex (0, toLex (0, 0))

/-- A number is at most another when both are defined and in this place. -/
theorem isLE_compare_iff {a b : UnpackedFloat} :
    (a.compare b).any (·.isLE) = true ↔
      (a ≠ .notANumber ∧ b ≠ .notANumber) ∧ orderRank a ≤ orderRank b := by
  have hsign : compare Sign.negative Sign.negative = .eq ∧
      compare Sign.negative Sign.positive = .lt ∧ compare Sign.positive Sign.negative = .gt ∧
      compare Sign.positive Sign.positive = .eq := ⟨rfl, rfl, rfl, rfl⟩
  have hthen : ∀ (e d : ℤ) (m n : ℕ), ((compare e d).then (compare m n)).isLE = true ↔
      e < d ∨ e = d ∧ m ≤ n := by
    intro e d m n
    rcases lt_trichotomy e d with h | rfl | h
    · simp [Int.compare_eq_lt.mpr h, h]
    · simp [Ordering.then, Nat.isLE_compare]
    · simp [Int.compare_eq_gt.mpr h, h.ne', h.not_gt]
  rcases a with (_ | _) | _ | _ | ⟨_ | _, m, e, hm⟩ <;>
    rcases b with (_ | _) | _ | _ | ⟨_ | _, n, d, hn⟩ <;>
    simp [UnpackedFloat.compare, orderRank, Prod.Lex.toLex_le_toLex, hsign, Ordering.swap_then,
      Int.compare_swap, Nat.compare_swap, hthen]
  -- of two negative numbers, the exponents are compared the other way around
  exact or_congr_right (and_congr_left' eq_comm)

instance : PreorderedScalar Float where
  zero_nonneg := float_le_self_iff.mpr fun h => by cases h
  le_trans {a b c} hab hbc := by
    rw [float_le_iff, isLE_compare_iff] at hab hbc ⊢
    exact ⟨⟨hab.1.1, hbc.1.2⟩, hab.2.trans hbc.2⟩

instance : TotalScalar Float where
  not_le_iff_lt {a b} ha hb := by
    obtain ⟨o, ho⟩ := exists_compare (float_le_self_iff.mp ha) (float_le_self_iff.mp hb)
    rw [float_le_iff, float_lt_iff, compare_swap a.toModel.unpack, ho]
    cases o <;> simp

/-- **An undefined number** is neither at most another nor greater. -/
theorem not_le_of_isUndefined {a : Float} (h : Scalar.isUndefined a = true) (x : Float) :
    ¬ a ≤ x ∧ ¬ x < a := by
  have hself : ¬ a ≤ a := by simpa [Scalar.isUndefined] using h
  have hnan : a.toModel.unpack = .notANumber := not_not.mp (mt float_le_self_iff.mpr hself)
  refine ⟨fun hle => (ne_notANumber_of_le hle).1 hnan, fun hlt => ?_⟩
  rw [float_lt_iff, compare_eq_none_iff.mpr (.inr hnan)] at hlt
  cases hlt

/-! ### Natural numbers -/

/-- A product is that of the unpacked factors, rounded. -/
theorem unpack_mul (a b : Float) :
    (a * b).toModel.unpack =
      (Float.Model.pack (UnpackedFloat.mul .binary64 a.toModel.unpack
        b.toModel.unpack)).unpack := rfl

/-- A quotient is that of the unpacked numbers, rounded. -/
theorem unpack_div (a b : Float) :
    (a / b).toModel.unpack =
      (Float.Model.pack (UnpackedFloat.div .binary64 a.toModel.unpack
        b.toModel.unpack)).unpack := rfl

theorem unpack_zero : (0 : Float).toModel.unpack = .zero .positive := by rfl

theorem unpack_natCast_zero : ((0 : ℕ) : Float).toModel.unpack = .zero .positive := by rfl

/-- One unpacks to a mantissa of 53 bits. -/
theorem unpack_natCast_one :
    ((1 : ℕ) : Float).toModel.unpack = .finite .positive (2 ^ 52) (-52) (by decide) := by rfl

/-- The mantissa of a natural number, with as many zeros behind it as make it 53 bits. -/
def fullMantissa (n : ℕ) : ℕ := n * 2 ^ (52 - n.log2)

/-- The full mantissa of a positive number is positive. -/
theorem fullMantissa_pos {n : ℕ} (hn : 0 < n) : 0 < fullMantissa n :=
  Nat.mul_pos hn (Nat.two_pow_pos _)

section

variable {n : ℕ} (hn : 0 < n) (hlt : n < 2 ^ 53)
include hn hlt

/-- A number below `2 ^ 53` has at most 53 bits. -/
theorem log2_lt_of_lt : n.log2 < 53 := (Nat.log2_lt hn.ne').mpr hlt

/-- The full mantissa has 53 bits. -/
theorem log2_fullMantissa : (fullMantissa n).log2 = 52 := by
  have hlog := log2_lt_of_lt hn hlt
  rw [fullMantissa, log2_mul_two_pow hn]
  omega

/-- A natural number of at most 53 bits has a canonical form. -/
theorem canonical_fullMantissa : Canonical (fullMantissa n) ((n.log2 : ℤ) - 52) := by
  have hlog := log2_fullMantissa hn hlt
  have hne := (fullMantissa_pos hn).ne'
  exact ⟨(Nat.log2_lt hne).mp (by omega), by omega, .inl ((Nat.le_log2 hne).mp hlog.ge)⟩

/-- Reading a word of at most 53 bits as a number rounds nothing. -/
theorem unpack_toFloat : n.toUInt64.toFloat.toModel.unpack =
    .finite .positive (fullMantissa n) ((n.log2 : ℤ) - 52) (fullMantissa_pos hn) := by
  have hcanonical := canonical_fullMantissa hn hlt
  have hlog := log2_lt_of_lt hn hlt
  have hword : n.toUInt64.toNat = n := UInt64.toNat_ofNat_of_lt (hlt.trans (by decide))
  have hround : UnpackedFloat.round .binary64 .positive n 0 =
      .finite .positive (fullMantissa n) ((n.log2 : ℤ) - 52) (fullMantissa_pos hn) := by
    have htarget : Format.binary64.targetExponent (totalExponent n 0) = (n.log2 : ℤ) - 52 := by
      rw [targetExponent_eq]
      omega
    have hshift : (0 - ((n.log2 : ℤ) - 52)).toNat = 52 - n.log2 := by omega
    have hexponent : (0 : ℤ) - ((52 - n.log2 : ℕ) : ℤ) = (n.log2 : ℤ) - 52 := by omega
    have hexact := hcanonical.roundWithAccuracy_mul_two_pow .positive (fullMantissa_pos hn) 0
    simp only [UnpackedFloat.round, decreaseExponent, htarget, hshift, hexponent, Nat.shiftLeft_eq]
    simpa [fullMantissa] using hexact
  have hofUInt64 : UnpackedFloat.ofUInt64 .binary64 n.toUInt64 =
      UnpackedFloat.round .binary64 .positive n 0 := by
    have hpos : compare (n : ℤ) 0 = .gt := Int.compare_eq_gt.mpr (by omega)
    simp only [UnpackedFloat.ofUInt64, UnpackedFloat.ofNat, UnpackedFloat.ofInt,
      UnpackedFloat.normalize, hword, hpos, Int.toNat_natCast]
  have hunpack : n.toUInt64.toFloat.toModel.unpack =
      (Float.Model.pack (UnpackedFloat.ofUInt64 .binary64 n.toUInt64)).unpack := rfl
  rw [hunpack, hofUInt64, hround]
  exact hcanonical.unpack_pack _ _ (by omega)

/-- **A natural number of at most 53 bits** is represented exactly. -/
theorem unpack_natCast : (n : Float).toModel.unpack =
    .finite .positive (fullMantissa n) ((n.log2 : ℤ) - 52) (fullMantissa_pos hn) := by
  have hcanonical := canonical_fullMantissa hn hlt
  have hlog := log2_lt_of_lt hn hlt
  -- A number that is written without a fraction is read as a word times the power of ten that
  -- is one.
  have hproduct : (n : Float) = n.toUInt64.toFloat * Float.exactlyRepresentablePowersOfTen[0] := by
    show Float.ofScientific n false 0 = _
    rw [Float.ofScientific, dif_pos ⟨hlt, by decide⟩]
    rfl
  have hone : (Float.exactlyRepresentablePowersOfTen[0]).toModel.unpack =
      .finite .positive (2 ^ 52) (-52) (by decide) := by rfl
  have hmul : UnpackedFloat.mul .binary64
      (.finite .positive (fullMantissa n) ((n.log2 : ℤ) - 52) (fullMantissa_pos hn))
      (.finite .positive (2 ^ 52) (-52) (by decide)) =
        .finite .positive (fullMantissa n) ((n.log2 : ℤ) - 52) (fullMantissa_pos hn) :=
    hcanonical.roundWithAccuracy_mul_two_pow .positive (fullMantissa_pos hn) 52
  rw [hproduct, unpack_mul, unpack_toFloat hn hlt, hone, hmul]
  exact hcanonical.unpack_pack _ _ (by omega)

end

/-! ### Quotients -/

/-- The quotient of two numbers whose mantissas have 53 bits is computed with 53 more bits. -/
theorem divCore_eq {m n : ℕ} {e d : ℤ} (hm : m.log2 = 52) (hn : n.log2 = 52)
    (hexponent : -1021 ≤ e - d) :
    divCore .binary64 m e n d =
      (m * 2 ^ 53 / n, e - d - 53, accuracyOfFraction (m * 2 ^ 53 % n) n) := by
  have htarget : min (e - d)
      (Format.binary64.targetExponent (totalExponent m e - totalExponent n d)) =
      e - d - 53 := by
    simp only [Format.targetExponent, totalExponent, Format.mantissaBits, Format.minExponent,
      hm, hn]
    omega
  have hshift : (e - d - (e - d - 53)).toNat = 53 := by omega
  simp only [divCore, htarget, hshift, Nat.shiftLeft_eq]

/-- A quotient of natural numbers is what the quotient of their mantissas is rounded to. -/
theorem unpack_natCast_div {m n : ℕ} (hm : 0 < m) (hn : 0 < n) (hmlt : m < 2 ^ 53)
    (hnlt : n < 2 ^ 53) :
    ((m : Float) / (n : Float)).toModel.unpack =
      (Float.Model.pack (roundWithAccuracy .binary64 .positive
        (fullMantissa m * 2 ^ 53 / fullMantissa n) ((m.log2 : ℤ) - n.log2 - 53)
        (accuracyOfFraction (fullMantissa m * 2 ^ 53 % fullMantissa n)
          (fullMantissa n)))).unpack := by
  have hmlog := log2_lt_of_lt hm hmlt
  have hnlog := log2_lt_of_lt hn hnlt
  have hexponent : (m.log2 : ℤ) - 52 - ((n.log2 : ℤ) - 52) = m.log2 - n.log2 := by omega
  have hcore := divCore_eq (e := (m.log2 : ℤ) - 52) (d := (n.log2 : ℤ) - 52)
    (log2_fullMantissa hm hmlt) (log2_fullMantissa hn hnlt) (by omega)
  rw [unpack_div, unpack_natCast hm hmlt, unpack_natCast hn hnlt]
  simp only [UnpackedFloat.div, hcore, hexponent]
  rfl

/-- A larger number has at least as many bits. -/
theorem log2_le_log2 {m n : ℕ} (hm : 0 < m) (hmn : m ≤ n) : m.log2 ≤ n.log2 :=
  (Nat.le_log2 (hm.trans_le hmn).ne').mpr ((Nat.log2_self_le hm.ne').trans hmn)

/-- The quotient of a lesser number by a greater one is short of a quotient that is one. -/
theorem quotient_bounds {m n : ℕ} (hm : 0 < m) (hmn : m < n) (hlt : n < 2 ^ 53) :
    2 ^ 52 ≤ fullMantissa m * 2 ^ 53 / fullMantissa n ∧
      fullMantissa m * 2 ^ 53 / fullMantissa n < 2 ^ (n.log2 - m.log2 + 53) := by
  have hn : 0 < n := hm.trans hmn
  have hlog := log2_lt_of_lt hn hlt
  have hlogs := log2_le_log2 hm hmn.le
  constructor
  · have hfull := (canonical_fullMantissa hm (hmn.trans hlt)).full.resolve_right (by omega)
    have hshort := (canonical_fullMantissa hn hlt).lt
    rw [Nat.le_div_iff_mul_le (fullMantissa_pos hn)]
    omega
  · have hpowers : 2 ^ (52 - m.log2) * 2 ^ 53 = 2 ^ (n.log2 - m.log2 + 53) * 2 ^ (52 - n.log2) := by
      rw [← pow_add, ← pow_add]
      congr 1
      omega
    rw [Nat.div_lt_iff_lt_mul (fullMantissa_pos hn)]
    calc fullMantissa m * 2 ^ 53
        = m * (2 ^ (52 - m.log2) * 2 ^ 53) := by rw [fullMantissa, mul_assoc]
      _ < n * (2 ^ (52 - m.log2) * 2 ^ 53) := Nat.mul_lt_mul_of_pos_right hmn (by positivity)
      _ = 2 ^ (n.log2 - m.log2 + 53) * fullMantissa n := by
        rw [hpowers, fullMantissa, mul_left_comm]

/-- Zero is a share. -/
theorem isShare_of_unpack_zero {x : Float} (hx : x.toModel.unpack = .zero .positive) :
    IsShare x := by
  refine ⟨?_, ?_⟩
  · rw [float_le_iff, unpack_zero, hx]
    rfl
  · rw [float_le_iff, unpack_natCast_one, hx]
    rfl

/-- A positive number in canonical form is a share when it is one or its exponent is below that
of one. -/
theorem isShare_of_unpack {x : Float} {m : ℕ} {e : ℤ} {hm : 0 < m} (h : Canonical m e)
    (hx : x.toModel.unpack = (Float.Model.pack (.finite .positive m e hm)).unpack)
    (he : e < -52 ∨ e = -52 ∧ m = 2 ^ 52) : IsShare x := by
  rw [h.unpack_pack _ _ (by omega)] at hx
  refine ⟨?_, ?_⟩
  · rw [float_le_iff, unpack_zero, hx]
    rfl
  · rw [float_le_iff, unpack_natCast_one, hx]
    rcases he with he | ⟨rfl, rfl⟩
    · have hlt : compare e (-52) = .lt := Int.compare_eq_lt.mpr he
      simp [UnpackedFloat.compare, hlt]
    · simp [UnpackedFloat.compare]

/-- **A quotient of natural numbers is a share** when the first is at most the second and they
have at most 53 bits. -/
theorem isShare_natCast_div {m n : ℕ} (hle : m ≤ n) (hn : 0 < n) (hlt : n < 2 ^ 53) :
    IsShare ((m : Float) / (n : Float)) := by
  rcases Nat.eq_zero_or_pos m with rfl | hm
  · refine isShare_of_unpack_zero ?_
    rw [unpack_div, unpack_natCast_zero, unpack_natCast hn hlt]
    exact unpack_pack_zero _
  have hdiv := unpack_natCast_div hm hn (hle.trans_lt hlt) hlt
  rcases hle.eq_or_lt with rfl | hmn
  -- A number divided by itself is exactly one, and one is in canonical form.
  · have hone : Canonical (2 ^ 52) (-52) := ⟨by decide, by decide, .inl le_rfl⟩
    rw [Nat.mul_div_cancel_left _ (fullMantissa_pos hm), Nat.mul_mod_right, sub_self] at hdiv
    have hround := hone.roundWithAccuracy_mul_two_pow .positive (by decide) 1
    exact isShare_of_unpack hone (hdiv.trans (congrArg (unpack ∘ Float.Model.pack) hround))
      (.inr ⟨rfl, rfl⟩)
  -- Otherwise the quotient is cut to an exponent below that of one, and rounding up gives one
  -- at most.
  · obtain ⟨hlow, hhigh⟩ := quotient_bounds hm hmn hlt
    generalize hq : fullMantissa m * 2 ^ 53 / fullMantissa n = q at hlow hhigh hdiv
    have hpos : 0 < q := by omega
    have hlogs := log2_le_log2 hm hmn.le
    have hlow' : 52 ≤ q.log2 := (Nat.le_log2 hpos.ne').mpr hlow
    have hhigh' : q.log2 < n.log2 - m.log2 + 53 := (Nat.log2_lt hpos.ne').mpr hhigh
    have hnlog := log2_lt_of_lt hn hlt
    rcases roundWithAccuracy_cases .positive (e := (m.log2 : ℤ) - n.log2 - 53)
      (accuracyOfFraction (fullMantissa m * 2 ^ 53 % fullMantissa n) (fullMantissa n))
        (.inl hpos) rfl
      (by omega)
      with ⟨-, hzero⟩ | ⟨r, d, hr, hfinite, hcanonical, hd⟩
    · rw [hzero] at hdiv
      exact isShare_of_unpack_zero (hdiv.trans (unpack_pack_zero _))
    · rw [hfinite] at hdiv
      exact isShare_of_unpack hcanonical hdiv (by omega)

end Linkage
