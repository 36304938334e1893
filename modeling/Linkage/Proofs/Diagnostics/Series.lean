import Mathlib
import Linkage.Diagnostics.Basic
import Linkage.Proofs.Number.CountBound

/-!
# Summaries of bounded series

The summary of a series in floating point is finite as long as the series is not empty, its
scalars are bounded and it is not too long. The mean is bounded like the scalars, the distances
from it like the mean, their squares by twice the exponent, and a quantile by a multiple of the
distance between two neighbours.

The series of a diagnostic is never so long or so large that one of these bounds is reached.

## Main results

* `Series.upTo_mean`, `Series.upTo_variance`: means and variances.
* `Series.within_quantile`: quantiles.
* `Diagnostics.summaryOf_of_bounded`: the summary of a bounded series is finite.
-/

namespace Linkage

namespace Series

variable {j k : ℕ} {xs : List Float}

/-! ### Means and variances -/

/-- The mean of bounded numbers is bounded. -/
theorem upTo_mean (hjk : 2 * j + k < 1022) (hne : xs ≠ []) (hxs : ∀ x ∈ xs, UpTo (2 ^ k) x)
    (hlength : xs.length ≤ 2 ^ j) : UpTo (2 ^ (j + k + 2)) (mean xs) := by
  refine (countBound_float hjk hlength).blockedMean (fun x hx => ?_) hne le_rfl
  simpa using hxs x hx

/-- The square of the distance from the mean. -/
theorem upTo_square (hjk : 4 * j + 2 * k + 9 < 1022) (hne : xs ≠ [])
    (hxs : ∀ x ∈ xs, UpTo (2 ^ k) x) (hlength : xs.length ≤ 2 ^ j) {x : Float} (hx : x ∈ xs) :
    UpTo (2 ^ (2 * j + 2 * k + 9)) ((mean xs - x) * (mean xs - x)) := by
  have hmean := (upTo_mean (by omega) hne hxs hlength).within
  have hdistance := hmean.sub ((hxs x hx).within.mono (by omega)) (by omega)
  have hexponent : j + k + 2 + 2 + (j + k + 2 + 2) + 1 = 2 * j + 2 * k + 9 := by ring
  rw [← hexponent]
  exact hdistance.mul_self (by omega)

/-- The variance of bounded numbers is bounded. -/
theorem upTo_variance (hjk : 4 * j + 2 * k + 9 < 1022) (hne : xs ≠ [])
    (hxs : ∀ x ∈ xs, UpTo (2 ^ k) x)
    (hlength : xs.length ≤ 2 ^ j) : UpTo (2 ^ (j + (2 * j + 2 * k + 9) + 2)) (variance xs) := by
  have hsquares : ∀ y ∈ xs.map fun x => (mean xs - x) * (mean xs - x),
      UpTo (2 ^ (2 * j + 2 * k + 9)) y := by
    intro y hy
    obtain ⟨x, hx, rfl⟩ := List.mem_map.mp hy
    exact upTo_square hjk hne hxs hlength hx
  exact upTo_mean (by omega) (by simpa using hne) hsquares (by simpa using hlength)

/-! ### Quantiles -/

/-- One is bounded. -/
theorem within_one : Within 1 ((1 : ℕ) : Float) := .natCast (le_refl (2 ^ 0)) (by decide)

/-- A point between two scalars. -/
theorem within_between {s : ℕ} {a b share : Float} (ha : Within k a) (hb : Within k b)
    (hshare : Within (s + 1) share) (hks : k + s + 8 < 1023) :
    Within (k + s + 8) (between a b share) := by
  have hdistance : Within (k + 2) (b - a) := hb.sub ha (by omega)
  unfold between
  split
  · have hrest := (within_one.mono (by omega : 1 ≤ s + 1)).sub hshare (by omega)
    have hproduct := hdistance.mul hrest (by omega)
    have hproduct := hproduct.mono (by omega : _ ≤ k + s + 6)
    exact ((hb.mono (by omega)).sub hproduct (by omega)).mono (by omega)
  · have hproduct := hdistance.mul hshare (by omega)
    have hproduct := hproduct.mono (by omega : _ ≤ k + s + 6)
    exact ((ha.mono (by omega)).add hproduct (by omega)).mono (by omega)

/-- A quantile of a bounded series. The place of a probability is bounded by the length, and
the number of the place below it by a machine word. -/
theorem within_quantile (hjk : j + k + 77 < 1023) (hxs : ∀ x ∈ xs, Within k x)
    (hlength : xs.length ≤ 2 ^ j) {q : Float} (hq : Within 3 q) :
    Within (j + k + 77) (quantile xs q) := by
  have hmem : ∀ i, Within k (xs.getD i 0) := by
    intro i
    rcases lt_or_ge i xs.length with hi | hi
    · rw [List.getD_eq_getElem _ _ hi]
      exact hxs _ (List.getElem_mem hi)
    · rw [List.getD_eq_default _ _ hi]
      exact .zero k
  have hlast : Within (j + 1) ((xs.length - 1 : ℕ) : Float) := .natCast (by omega) (by omega)
  have hplace := (hlast.mul hq (by omega)).mono (by omega : _ ≤ j + 67)
  have hexponent : k + (j + 68) + 8 ≤ j + k + 77 := by omega
  simp only [quantile]
  split
  · have hshare := hplace.add (within_one.mono (by omega)) (by omega)
    exact (within_between (hmem _) (hmem _) hshare (by omega)).mono hexponent
  · have hfloor : Scalar.floorNat (((xs.length - 1 : ℕ) : Float) * q) < 2 ^ 64 := UInt64.toNat_lt _
    have hbelow := (Within.natCast hfloor.le (by omega)).mono (by omega : _ ≤ j + 67)
    exact (within_between (hmem _) (hmem _) (hplace.sub hbelow (by omega)) (by omega)).mono
      hexponent

/-! ### Probabilities -/

/-- The different scalars of a list are scalars of it. -/
theorem firstOfEqual_subset (held qs : List Float) : firstOfEqual held qs ⊆ held ++ qs := by
  induction qs generalizing held with
  | nil => simp [firstOfEqual]
  | cons q rest ih =>
      rw [firstOfEqual]
      split
      · exact fun x hx => ((List.sublist_cons_self q rest).append_left held).subset (ih held hx)
      · simpa using ih (held ++ [q])

/-- The probabilities asked for are among the given ones. -/
theorem mem_of_mem_probabilities {q : Float} {qs : List Float} (h : q ∈ probabilities qs) :
    q ∈ qs := by
  have := firstOfEqual_subset [] qs ((BisectionSort.perm_sort _ _).mem_iff.mp h)
  simpa using this

/-- The standard probabilities are probabilities. -/
theorem isProbability_of_standard {q : Float} (h : q ∈ standardProbabilities) :
    isProbability q = true := by
  have hall : ∀ q ∈ (standardProbabilities : List Float), isProbability q = true := by
    decide +kernel
  exact hall q h

/-- The standard probabilities are bounded. -/
theorem within_of_standard {q : Float} (h : q ∈ standardProbabilities) : Within 3 q := by
  have hhalf : (Scalar.ofDecimal 5 1 : Float) = ((1 : ℕ) : Float) / ((2 : ℕ) : Float) := by
    decide +kernel
  have hshare : UpTo (2 * (2 * 2)) (((1 : ℕ) : Float) / ((2 : ℕ) : Float)) :=
    .natCast_div_natCast one_le_two two_pos
      (lt_of_eq_of_lt (by norm_num) (pow_lt_pow_right₀ one_lt_two (by decide : 1 < 1023)))
  simp only [standardProbabilities, List.mem_cons, List.not_mem_nil, or_false] at h
  rcases h with rfl | rfl | rfl
  · exact .zero 3
  · rw [hhalf]
    exact (hshare.mono (by norm_num : (2 : ℚ) * (2 * 2) ≤ 2 ^ 3)).within
  · exact within_one.mono (by decide)

end Series

/-! ### Summaries -/

/-- A summary is **finite** when everything in it is known and finite. -/
structure SeriesSummary.IsFinite (s : SeriesSummary Float) : Prop where
  /-- The mean is. -/
  mean : ∃ x, s.mean = some x ∧ x.isFinite = true
  /-- The variance is. -/
  variance : ∃ x, s.variance = some x ∧ x.isFinite = true
  /-- The quantiles are. -/
  quantiles : ∀ q ∈ s.quantiles, ∃ x, q.2 = some x ∧ x.isFinite = true

namespace Diagnostics

open Series

/-- A summary at the standard probabilities is that of the defined scalars. -/
theorem summaryOf_eq (xs : List Float) :
    summaryOf xs =
      let defined := xs.filter fun x => !Scalar.isUndefined x
      let places := probabilities standardProbabilities
      if defined.isEmpty then ⟨0, none, none, places.map fun q => (q, none)⟩
      else ⟨defined.length, some (mean defined), some (variance defined),
        places.map fun q => (q, some (quantile (increasing defined) q))⟩ := by
  have hvalid : (probabilities (standardProbabilities : List Float)).find?
      (fun q => !isProbability q) =
      none := by
    simp only [List.find?_eq_none, Bool.not_eq_true', Bool.not_eq_false]
    exact fun q hq => isProbability_of_standard (mem_of_mem_probabilities hq)
  simp only [summaryOf, summarise, hvalid]
  split <;> split <;> simp_all

/-- **The summary of a bounded series is finite**, unless the series is empty. -/
theorem summaryOf_of_bounded {j k : ℕ} (hjk : 4 * j + 2 * k + 9 < 1022) {xs : List Float}
    (hne : xs ≠ []) (hxs : ∀ x ∈ xs, UpTo (2 ^ k) x) (hlength : xs.length ≤ 2 ^ j) :
    (summaryOf xs).IsFinite := by
  have hdefined : (xs.filter fun x => !Scalar.isUndefined x) = xs :=
    List.filter_eq_self.mpr fun x hx => by rw [(hxs x hx).isUndefined, Bool.not_false]
  have hsorted : (increasing xs).Perm xs := List.mergeSort_perm _ _
  have hwithin : ∀ x ∈ increasing xs, Within k x := fun x hx =>
    (hxs x (hsorted.mem_iff.mp hx)).within
  rw [summaryOf_eq, hdefined]
  simp only [List.isEmpty_iff, hne, if_false]
  refine ⟨⟨_, rfl, (upTo_mean (by omega) hne hxs hlength).within.isFinite⟩,
    ⟨_, rfl, (upTo_variance (by omega) hne hxs hlength).within.isFinite⟩, fun q hq => ?_⟩
  obtain ⟨p, hp, rfl⟩ := List.mem_map.mp hq
  have hquantile := within_quantile (by omega) hwithin (hsorted.length_eq.trans_le hlength)
    (within_of_standard (mem_of_mem_probabilities hp))
  exact ⟨_, rfl, hquantile.isFinite⟩

end Diagnostics

end Linkage
