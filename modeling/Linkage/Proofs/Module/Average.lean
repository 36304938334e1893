import Mathlib
import Linkage.Module.Cut
import Linkage.Proofs.Lookup
import Linkage.Proofs.Number.CountBound
import Linkage.Proofs.OrderedPairs
import Linkage.Proofs.Text.Members

/-!
# The average coupling of a node

A cut remembers the averages that it has computed. What it remembers is `Sound`: each average
is that of its set of classes, so a remembered average is the one that would be computed again.

An average is made of look-ups, so that what holds of sums of bounded weights bounds it. In
particular, when no weight is negative, no average is.

## Main results

* `CountBound.averagePairwise`: averages of bounded weights are bounded.
* `averagePairwise_nonneg`: averages of non-negative weights are not negative.
* `averageOf_of_sound`: an average that is remembered is the one that would be computed.
-/

namespace Linkage

open Dendrogram

variable {α : Type} [Scalar α]

/-- A single class has no pairs, and averages zero. -/
theorem averagePairwise_leaf (weights : CouplingWeights α) (n : String) (c : α) :
    averagePairwise (leaf n c).classes weights = 0 := by
  have hlength : (Text.members [n]).length = 1 :=
    (Text.members_perm (List.nodup_singleton n)).length_eq
  simp [averagePairwise, classes, hlength]

/-! ### Bounds for averages -/

section Bounds

variable {weights : CouplingWeights α}

/-- What holds of zero and of all weights of a table holds of what is looked up. -/
theorem couplingBetween_of_forall {P : α → Prop} (hzero : P 0) (hw : ∀ x ∈ weights.values, P x)
    (a b : String) : P (couplingBetween weights a b) := by
  have hvalue : ∀ pair, P ((weights.get? pair).getD 0) := by
    intro pair
    cases hget : weights.get? pair with
    | none => exact hzero
    | some x => exact hw x (OrderedMap.mem_values_of_get? hget)
  rw [couplingBetween]
  split
  · next x hx => exact hw x (OrderedMap.mem_values_of_get? hx)
  · exact hvalue (b, a)

/-- **Averages of bounded weights** are good, up to a limit for the number of pairs. -/
theorem CountBound.averagePairwise {limit : ℕ} {holds : ℕ → α → Prop} {good : α → Prop}
    (h : CountBound limit holds good) (hw : ∀ x ∈ weights.values, holds 1 x) {xs : List String}
    (hlimit : (orderedPairs (Text.members xs)).length ≤ limit) :
    good (averagePairwise xs weights) := by
  simp only [Linkage.averagePairwise]
  split
  · exact h.good_zero
  · next hmany =>
    generalize hpairs : orderedPairs (Text.members xs) = pairs at hlimit
    have hweights : ∀ x ∈ pairs.map fun p => couplingBetween weights p.1 p.2, holds 1 x := by
      intro x hx
      obtain ⟨p, -, rfl⟩ := List.mem_map.mp hx
      exact couplingBetween_of_forall (h.holds_zero 1) hw p.1 p.2
    have hlength : 0 + (pairs.map fun p => couplingBetween weights p.1 p.2).length * 1 =
        pairs.length := by
      rw [Nat.zero_add, Nat.mul_one, List.length_map]
    have hsum := h.sumFrom hweights h.zero (hlength.trans_le hlimit)
    have hpos : 0 < pairs.length := by
      rw [← hpairs, List.length_pos_iff, Ne, orderedPairs_eq_nil_iff]
      simp only [Bool.or_eq_true, decide_eq_true_eq, not_or] at hmany
      omega
    rw [hlength] at hsum
    exact h.div hpos hlimit hsum

/-- Averages of non-negative weights are not negative. -/
theorem averagePairwise_nonneg [OrderedScalar α] (hw : ∀ w ∈ weights.values, 0 ≤ w)
    (xs : List String) : 0 ≤ averagePairwise xs weights :=
  (countBound_nonneg _).averagePairwise hw le_rfl

end Bounds

namespace CutRule

/-! ### The memory of a cut -/

/-- The known averages are those of their classes. -/
def Sound (weights : CouplingWeights α) (known : Averages α) : Prop :=
  ∀ e ∈ known, e.2 = averagePairwise e.1 weights

/-- A memory of nothing is sound. -/
theorem sound_nil (weights : CouplingWeights α) : Sound weights [] :=
  fun _ he => absurd he List.not_mem_nil

/-- An average that is remembered is the one that would be computed. -/
theorem averageOf_of_sound {weights : CouplingWeights α} {known : Averages α}
    (h : Sound weights known) (v : Dendrogram α) :
    (averageOf weights known v).1 = averagePairwise v.classes weights ∧
      Sound weights (averageOf weights known v).2 := by
  unfold averageOf
  cases hx : known.lookup v.classes with
  | some x =>
      obtain ⟨before, after, hknown, -⟩ := List.lookup_eq_some_iff.mp hx
      have hmem : (v.classes, x) ∈ known := by simp [hknown]
      exact ⟨h _ hmem, h⟩
  | none =>
      refine ⟨rfl, fun e he => ?_⟩
      rcases List.mem_append.mp he with he | he
      · exact h e he
      · obtain rfl := List.mem_singleton.mp he
        rfl

end CutRule

end Linkage
