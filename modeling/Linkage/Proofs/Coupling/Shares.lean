import Mathlib
import Linkage.Proofs.Coupling.Normalised
import Linkage.Proofs.Module.Average
import Linkage.Proofs.Number.Binary64
import Linkage.Proofs.Number.CountBound
import Linkage.Proofs.OrderedPairs

/-!
# Weights and averages are shares

In exact arithmetic every weight of a call graph is a share: a count is part of the sum of all
counts. So is what is read off a table of shares, a look-up and the average over the pairs of a
set of classes. In floating point the weights are shares as long as the sum of all counts has
at most 53 bits.

## Main results

* `CouplingSummary.exists_shares`: the weights of every call graph exist and are shares.
* `exists_shares_float`, `exists_weights_float`: the weights of positive counts in floating
  point.
* `averagePairwise_isShare`: averages of shares are shares.
-/

namespace Linkage

/-! ### The weights of a call graph -/

section Weights

variable {α : Type} [Scalar α] {counts : CouplingCounts}

/-- The share of a count in a total is their quotient, when both are in range. -/
theorem share?_natCast {total count : ℕ} (htotal : Scalar.ofInt? (total : ℤ) = some (total : α))
    (hcount : Scalar.ofInt? (count : ℤ) = some (count : α)) :
    share? (total : ℤ) (count : ℤ) = some ((count : α) / (total : α)) := by
  simp only [share?, htotal, hcount]

/-- The weights of positive counts exist, and what holds of quotients of counts holds
of them. -/
theorem exists_weights_of_quotients {P : α → Prop} (hpos : ∀ n ∈ counts.values, 0 < n)
    (hquotient : ∀ count total : ℕ, 0 < count → count ≤ total → (total : ℤ) = totalCalls counts →
      ∃ x : α, share? (total : ℤ) (count : ℤ) = some x ∧ P x) :
    ∃ weights : CouplingWeights α, normalise? counts (totalCalls counts) = some weights ∧
      weights.keys = counts.keys ∧ ∀ x ∈ weights.values, P x := by
  have hshare : ∀ n ∈ counts.values, ∃ x : α, share? (totalCalls counts) n = some x ∧ P x := by
    intro n hn
    have hle := le_totalCalls hpos hn
    have hcount := hpos n hn
    obtain ⟨count, rfl⟩ := Int.eq_ofNat_of_zero_le hcount.le
    obtain ⟨total, htotal⟩ := Int.eq_ofNat_of_zero_le (hcount.le.trans hle)
    rw [htotal] at hle ⊢
    exact hquotient count total (by omega) (by omega) htotal.symm
  by_cases hnone : counts.keys = []
  · refine ⟨OrderedMap.empty, normalise?_of_keys_eq_nil hnone, hnone.symm, ?_⟩
    simp [OrderedMap.values, OrderedMap.empty]
  · have hvalues : ∀ x ∈ (counts.mapValues (share? (α := α) (totalCalls counts))).values,
        ∃ y, x = some y ∧ P y := by
      intro x hx
      simp only [OrderedMap.values, OrderedMap.mapValues, List.map_map, List.mem_map] at hx
      obtain ⟨e, he, rfl⟩ := hx
      exact hshare _ (List.mem_map.mpr ⟨e, he, rfl⟩)
    have hall : (counts.mapValues (share? (α := α) (totalCalls counts))).values.all
        Option.isSome = true := by
      rw [List.all_eq_true]
      intro x hx
      obtain ⟨y, rfl, -⟩ := hvalues x hx
      rfl
    refine ⟨(counts.mapValues (share? (totalCalls counts))).mapValues (·.getD 0), ?_, ?_, ?_⟩
    · rw [normalise?, if_neg (not_le.mpr (totalCalls_pos hpos hnone))]
      simp only [hall, if_true]
    · rw [OrderedMap.keys_mapValues, OrderedMap.keys_mapValues]
    · intro x hx
      have hx' : x ∈ (counts.mapValues (share? (totalCalls counts))).values.map (·.getD 0) := by
        simpa [OrderedMap.values, OrderedMap.mapValues, Function.comp_def] using hx
      obtain ⟨_, ho, rfl⟩ := List.mem_map.mp hx'
      obtain ⟨y, rfl, hy⟩ := hvalues _ ho
      exact hy

/-- **The weights of positive counts** exist, belong to the pairs of the counts, and are
shares. -/
theorem exists_shares [ExactScalar α] (hpos : ∀ n ∈ counts.values, 0 < n) :
    ∃ weights : CouplingWeights α, normalise? counts (totalCalls counts) = some weights ∧
      weights.keys = counts.keys ∧ ∀ x ∈ weights.values, IsShare x :=
  exists_weights_of_quotients hpos fun count total hcount hle _ =>
    ⟨_, share?_natCast (ExactScalar.ofInt?_natCast total) (ExactScalar.ofInt?_natCast count),
      isShare_div (natCast_nonneg count) (ExactScalar.natCast_le hle) (hcount.trans_le hle)⟩

/-- The share of a count in a total in floating point, when the total is not too large. -/
theorem share?_float {count total : ℕ} (hle : count ≤ total) (hlt : (total : ℚ) < 2 ^ 1023) :
    share? (total : ℤ) (count : ℤ) = some ((count : Float) / (total : Float)) := by
  have hle' : (count : ℚ) ≤ total := by exact_mod_cast hle
  exact share?_natCast (ofInt?_natCast_float hlt) (ofInt?_natCast_float (hle'.trans_lt hlt))

/-- In floating point the weights of positive counts are shares when the sum of the counts has
at most 53 bits. -/
theorem exists_shares_float (hpos : ∀ n ∈ counts.values, 0 < n) (hlt : totalCalls counts < 2 ^ 53) :
    ∃ weights : CouplingWeights Float, normalise? counts (totalCalls counts) = some weights ∧
      weights.keys = counts.keys ∧ ∀ x ∈ weights.values, IsShare x :=
  exists_weights_of_quotients hpos fun count total hcount hle htotal => by
    have htotal' : total < 2 ^ 53 := by omega
    have hlarge : (total : ℚ) < 2 ^ 1023 :=
      lt_trans (by exact_mod_cast htotal') (pow_lt_pow_right₀ one_lt_two (by norm_num : 53 < 1023))
    exact ⟨_, share?_float hle hlarge, isShare_natCast_div hle (hcount.trans_le hle) htotal'⟩

/-- In floating point the weights of positive counts are neither negative nor more than eight,
as long as the sum of the counts is not too large. -/
theorem exists_weights_float {k : ℕ} (hk : k < 1023) (hpos : ∀ n ∈ counts.values, 0 < n)
    (hle : totalCalls counts ≤ 2 ^ k) :
    ∃ weights : CouplingWeights Float, normalise? counts (totalCalls counts) = some weights ∧
      weights.keys = counts.keys ∧ ∀ x ∈ weights.values, UpTo (2 ^ 3) x :=
  exists_weights_of_quotients hpos fun count total hcount hle' htotal => by
    have htotal' : (total : ℚ) ≤ 2 ^ k := by exact_mod_cast htotal.trans_le hle
    have hlarge := htotal'.trans_lt (pow_lt_pow_right₀ one_lt_two hk)
    exact ⟨_, share?_float hle' hlarge,
      (UpTo.natCast_div_natCast hle' (hcount.trans_le hle') hlarge).mono (by norm_num)⟩

/-- **The weights of every call graph are shares.** -/
theorem CouplingSummary.exists_shares [ExactScalar α] (g : CallGraph) :
    ∃ s : CouplingSummary α, ofGraph? g = some s ∧ s.counts = countCalls g ∧
      ∀ x ∈ s.weights.values, IsShare x := by
  obtain ⟨weights, hweights, -, hshares⟩ :=
    Linkage.exists_shares (α := α) fun _ hn => pos_of_mem_values_countCalls (g := g) hn
  exact ⟨_, by rw [ofGraph?, hweights, Option.map_some], rfl, hshares⟩

end Weights

/-! ### Averages -/

/-- **In exact arithmetic averages of shares are shares.** -/
theorem averagePairwise_isShare {α : Type} [Scalar α] [ExactScalar α] {weights : CouplingWeights α}
    (hw : ∀ x ∈ weights.values, IsShare x) (xs : List String) :
    IsShare (averagePairwise xs weights) :=
  (countBound_exact _).averagePairwise hw le_rfl

end Linkage
