import Mathlib
import Linkage.Pipeline
import Linkage.Proofs.Coupling.Counting
import Linkage.Proofs.Coupling.EachPairOnce

/-!
# The weights of a call graph

The counts of a call graph are positive, and the pairs of its table are pairs of classes in
increasing order. In exact arithmetic the shares of the counts in their sum are not negative
and add up to one, so the weights of every call graph exist and are `Normalised`.

## Main results

* `mem_keys_countCalls`: the pairs of a call graph.
* `normalise?_eq_some`: the shares of the counts in a positive total.
* `exists_normalised`: positive counts have normalised weights.
* `CouplingSummary.exists_ofGraph`: so has every call graph.
-/

namespace Linkage

/-! ### The counts of a call graph -/

section Counts

variable {g : CallGraph}

/-- The counts of a graph are those of its relations. -/
theorem countCalls_eq_tally (g : CallGraph) :
    countCalls g = tally (g.relationsWithin (.detect g)) := by
  rw [countCalls, countCallsIn, ProjectPackages.redetect_eq_detect]

/-- The pairs of a call graph are the pairs of classes that some identifier couples. -/
theorem mem_keys_countCalls {a b : String} :
    (a, b) ∈ (countCalls g).keys ↔ a < b ∧ ∃ callee, g.CoupledBy a b callee := by
  simp only [countCalls_eq_tally, mem_keys_tally, CallGraph.mem_relationsWithin_detect,
    exists_and_left]

/-- The counts hold no pair of classes twice. -/
theorem eachPairOnce_countCalls (g : CallGraph) : EachPairOnce (countCalls g) :=
  eachPairOnce_of_lt fun _ _ h => (mem_keys_countCalls.mp h).1

/-- A class of the project has a name. -/
theorem ProjectPackages.ne_empty_of_contains {p : ProjectPackages} {k : String}
    (h : p.contains (some k) = true) : k ≠ "" := by
  rintro rfl
  exact Bool.noConfusion h

/-- The classes of a call graph have names. -/
theorem ne_empty_of_mem_keys_countCalls {p : ClassPair} (h : p ∈ (countCalls g).keys) :
    p.1 ≠ "" ∧ p.2 ≠ "" := by
  obtain ⟨-, -, -, k, k', -, -, -, -, hset, hk, hk'⟩ := mem_keys_countCalls.mp h
  rw [Set.pair_eq_pair_iff] at hset
  have hk := ProjectPackages.ne_empty_of_contains hk
  have hk' := ProjectPackages.ne_empty_of_contains hk'
  rcases hset with ⟨rfl, rfl⟩ | ⟨rfl, rfl⟩
  · exact ⟨hk, hk'⟩
  · exact ⟨hk', hk⟩

/-- The counts of a call graph are positive. -/
theorem pos_of_mem_values_countCalls {n : Int} (h : n ∈ (countCalls g).values) : 0 < n := by
  obtain ⟨⟨pair, n⟩, hentry, rfl⟩ := List.mem_map.mp h
  have hget := OrderedMap.get?_eq_some_iff.mpr hentry
  rw [countCalls_eq_tally, get?_tally] at hget
  split at hget
  · cases hget
  · next hne =>
    obtain rfl := Option.some.inj hget
    exact Int.natCast_pos.mpr (List.length_pos_iff.mpr hne)

end Counts

/-! ### Shares -/

/-- The weights of a table are **normalised** when they belong to the pairs of its counts, are
not negative, and add up to one unless there are no pairs. -/
structure Normalised (counts : CouplingCounts) (weights : CouplingWeights ℚ) : Prop where
  /-- The weights have the pairs of the counts. -/
  keys_eq : weights.keys = counts.keys
  /-- No weight is negative. -/
  nonneg : ∀ x ∈ weights.values, 0 ≤ x
  /-- The weights add up to one, unless there are no pairs. -/
  sum_eq_one : counts.keys ≠ [] → weights.values.sum = 1

section Shares

variable {counts : CouplingCounts}

/-- The number of calls is the sum of the counts. -/
theorem totalCalls_eq_sum (counts : CouplingCounts) : totalCalls counts = counts.values.sum :=
  List.sum_eq_foldl.symm

/-- A table without pairs has an empty table of shares. -/
theorem normalise?_of_keys_eq_nil {α : Type} [Scalar α] (hnone : counts.keys = []) :
    (normalise? counts (totalCalls counts) : Option (CouplingWeights α)) =
      some OrderedMap.empty := by
  have hentries : counts.entries = [] := List.map_eq_nil_iff.mp hnone
  have htotal : totalCalls counts = 0 := by
    rw [totalCalls_eq_sum, OrderedMap.values, hentries]
    rfl
  rw [normalise?, htotal, if_pos le_rfl]

/-- Positive counts have a positive sum. -/
theorem totalCalls_pos (hpos : ∀ n ∈ counts.values, 0 < n) (hsome : counts.keys ≠ []) :
    0 < totalCalls counts := by
  have hvalues : counts.values ≠ [] := fun h => hsome (by
    rw [OrderedMap.keys, List.map_eq_nil_iff.mp h, List.map_nil])
  rw [totalCalls_eq_sum]
  exact List.sum_pos _ hpos hvalues

/-- A count is at most the sum of positive counts. -/
theorem le_totalCalls (hpos : ∀ n ∈ counts.values, 0 < n) {n : Int} (hn : n ∈ counts.values) :
    n ≤ totalCalls counts := by
  rw [totalCalls_eq_sum]
  exact List.single_le_sum (fun m hm => (hpos m hm).le) n hn

/-- The share of every count in a positive total. -/
theorem normalise?_eq_some (counts : CouplingCounts) {total : Int} (h : 0 < total) :
    (normalise? counts total : Option (CouplingWeights ℚ)) =
      some (counts.mapValues fun n : Int => (n : ℚ) / total) := by
  have hall : (counts.mapValues (share? (α := ℚ) total)).values.all Option.isSome = true := by
    rw [List.all_eq_true]
    intro x hx
    simp only [OrderedMap.values, OrderedMap.mapValues, List.map_map, List.mem_map] at hx
    obtain ⟨e, -, rfl⟩ := hx
    rfl
  have hshares : (counts.mapValues (share? total)).mapValues (·.getD 0) =
      counts.mapValues fun n : Int => (n : ℚ) / total := by
    simp only [OrderedMap.mapValues, List.map_map]
    rfl
  rw [normalise?, if_neg (not_le.mpr h)]
  simp only [hall, if_true, hshares]

/-- **Positive counts have normalised weights.** -/
theorem exists_normalised (hpos : ∀ n ∈ counts.values, 0 < n) :
    ∃ weights, normalise? counts (totalCalls counts) = some weights ∧
      Normalised counts weights := by
  by_cases hnone : counts.keys = []
  · refine ⟨OrderedMap.empty, normalise?_of_keys_eq_nil hnone, ?_⟩
    exact ⟨hnone.symm, by simp [OrderedMap.values, OrderedMap.empty], fun h => absurd hnone h⟩
  · have htotal : 0 < totalCalls counts := totalCalls_pos hpos hnone
    have hshares : (counts.mapValues fun n : Int => (n : ℚ) / totalCalls counts).values =
        counts.values.map fun n : Int => (n : ℚ) / totalCalls counts := by
      simp only [OrderedMap.values, OrderedMap.mapValues, List.map_map, Function.comp_def]
    refine ⟨_, normalise?_eq_some counts htotal, OrderedMap.keys_mapValues _ _, ?_, fun _ => ?_⟩
    · intro x hx
      rw [hshares] at hx
      obtain ⟨n, hn, rfl⟩ := List.mem_map.mp hx
      exact div_nonneg (Int.cast_nonneg (hpos n hn).le) (Int.cast_nonneg htotal.le)
    · calc (counts.mapValues fun n : Int => (n : ℚ) / totalCalls counts).values.sum
          = (counts.values.map fun n : Int => (n : ℚ)).sum / totalCalls counts := by
            rw [hshares]
            simp only [div_eq_mul_inv, List.sum_map_mul_right]
        _ = 1 := by
            rw [← Int.cast_list_sum, ← totalCalls_eq_sum]
            exact div_self (Int.cast_ne_zero.mpr htotal.ne')

/-- **Every call graph has normalised weights.** -/
theorem CouplingSummary.exists_ofGraph (g : CallGraph) :
    ∃ s : CouplingSummary ℚ, ofGraph? g = some s ∧ s.counts = countCalls g ∧
      Normalised (countCalls g) s.weights := by
  obtain ⟨weights, hweights, hnormal⟩ :=
    exists_normalised fun _ hn => pos_of_mem_values_countCalls (g := g) hn
  exact ⟨_, by rw [ofGraph?, hweights, Option.map_some], rfl, hnormal⟩

end Shares

end Linkage
