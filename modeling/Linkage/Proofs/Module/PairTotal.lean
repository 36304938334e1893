import Mathlib
import Linkage.Proofs.Clustering.CrossWeight
import Linkage.Proofs.Dendrogram.WellFormed
import Linkage.Proofs.OrderedPairs

/-!
# Totals over the pairs of a set

The average of a set of classes is the total of the weights of its pairs, divided by the number
of pairs. The total of a union splits into the totals of its two parts and the total across
them.

## Main results

* `pairTotal_append`: the total of two lists together.
* `averagePairwise_mul_choose`: an average times the number of pairs is the total.
* `averagePairwise_classes_le`: a bound on the weights bounds the average of a node.
* `pairTotal_node`: the total of an inner node.
* `pairTotal_eq_sum_values`: over all classes of a table it is the sum of the weights.
-/

namespace Linkage

/-- The **total of a weight over the pairs of a list**. -/
def pairTotal (w : String → String → ℚ) (xs : List String) : ℚ :=
  ((orderedPairs xs).map fun p => w p.1 p.2).sum

/-! ### Totals -/

section Totals

variable {w : String → String → ℚ} {xs ys : List String}

/-- One more class adds its weights with the others. -/
theorem pairTotal_cons (w : String → String → ℚ) (x : String) (xs : List String) :
    pairTotal w (x :: xs) = (xs.map (w x)).sum + pairTotal w xs := by
  rw [pairTotal, orderedPairs, List.map_append, List.sum_append, List.map_map]
  rfl

/-- The total of two lists together: the total of each, and the total across them. -/
theorem pairTotal_append (w : String → String → ℚ) (xs ys : List String) :
    pairTotal w (xs ++ ys) = pairTotal w xs + pairTotal w ys + totalWeight w xs ys := by
  induction xs with
  | nil => simp [pairTotal, orderedPairs]
  | cons x xs ih =>
      rw [List.cons_append, pairTotal_cons, pairTotal_cons, totalWeight_cons_left, ih,
        List.map_append, List.sum_append]
      ring

/-- The total of a symmetric weight does not depend on the order of the list. -/
theorem pairTotal_perm (hw : ∀ x y, w x y = w y x) (h : xs.Perm ys) :
    pairTotal w xs = pairTotal w ys := by
  induction h with
  | nil => rfl
  | cons x h ih => rw [pairTotal_cons, pairTotal_cons, ih, (h.map _).sum_eq]
  | swap x y rest =>
      simp only [pairTotal_cons, List.map_cons, List.sum_cons, hw y x]
      ring
  | trans _ _ ih ih' => rw [ih, ih']

/-- The total of a weight that is not negative is not negative. -/
theorem pairTotal_nonneg (hw : ∀ x y, 0 ≤ w x y) (xs : List String) : 0 ≤ pairTotal w xs := by
  refine List.sum_nonneg fun x hx => ?_
  obtain ⟨p, -, rfl⟩ := List.mem_map.mp hx
  exact hw p.1 p.2

end Totals

/-! ### Averages and totals -/

/-- **An average times the number of pairs is the total over the pairs.** -/
theorem averagePairwise_mul_choose (xs : List String) (weights : CouplingWeights ℚ) :
    averagePairwise xs weights * ((Text.members xs).length.choose 2 : ℕ) =
      pairTotal (couplingBetween weights) (Text.members xs) := by
  simp only [averagePairwise]
  split
  · next h =>
    rw [Bool.or_eq_true, decide_eq_true_eq] at h
    rw [zero_mul, pairTotal, eq_comm]
    rcases h with hfew | hempty
    · rw [orderedPairs_eq_nil_iff.mpr (by omega)]
      rfl
    · have hzero : ∀ a b, couplingBetween weights a b = 0 := by
        intro a b
        have hkeys : weights.keys = [] := by
          rw [OrderedMap.keys, List.isEmpty_iff.mp hempty, List.map_nil]
        exact couplingBetween_of_not_mem (by simp [hkeys]) (by simp [hkeys])
      simp [hzero]
  · next h =>
    rw [Bool.or_eq_true, decide_eq_true_eq, not_or] at h
    have hpos : 0 < (Text.members xs).length.choose 2 := Nat.choose_pos (by omega)
    rw [length_orderedPairs, div_mul_cancel₀ _ (Nat.cast_ne_zero.mpr hpos.ne'), pairTotal,
      List.sum_eq_foldl]

open Dendrogram

/-- An average of a tree times the number of its pairs is the total over the pairs. -/
theorem averagePairwise_classes_mul_choose (t : Dendrogram ℚ) (weights : CouplingWeights ℚ) :
    averagePairwise t.classes weights * (t.classCount.choose 2 : ℕ) =
      pairTotal (couplingBetween weights) t.classes := by
  have h := averagePairwise_mul_choose t.classes weights
  rwa [Text.members_of_pairwise_lt t.pairwise_classes] at h

/-- **A bound on the weights bounds the average of a node** with two classes or more. -/
theorem averagePairwise_classes_le {v : Dendrogram ℚ} (htwo : 2 ≤ v.classCount)
    {weights : CouplingWeights ℚ} {bound : ℚ}
    (hbound : ∀ x ∈ v.classes, ∀ y ∈ v.classes, x ≠ y → couplingBetween weights x y ≤ bound) :
    averagePairwise v.classes weights ≤ bound := by
  have hpairs : (0 : ℚ) < (v.classCount.choose 2 : ℕ) := Nat.cast_pos.mpr (Nat.choose_pos htwo)
  have htotal : pairTotal (couplingBetween weights) v.classes ≤
      (v.classCount.choose 2 : ℕ) * bound := by
    have hweights : ∀ w ∈ (orderedPairs v.classes).map fun p => couplingBetween weights p.1 p.2,
        w ≤ bound := by
      intro w hw
      obtain ⟨p, hp, rfl⟩ := List.mem_map.mp hw
      obtain ⟨hx, hy, hlt⟩ := (mem_orderedPairs_of_pairwise_lt v.pairwise_classes).mp hp
      exact hbound p.1 hx p.2 hy (ne_of_lt hlt)
    have hsum := List.sum_le_card_nsmul _ _ hweights
    rwa [List.length_map, length_orderedPairs, nsmul_eq_mul] at hsum
  rw [← averagePairwise_classes_mul_choose, mul_comm] at htotal
  exact le_of_mul_le_mul_left htotal hpairs

/-- The average of two classes is the weight between them. -/
theorem averagePairwise_classes_of_perm_pair {weights : CouplingWeights ℚ}
    (honce : EachPairOnce weights) {v : Dendrogram ℚ} {x y : String}
    (h : v.classes.Perm [x, y]) :
    averagePairwise v.classes weights = couplingBetween weights x y := by
  have htotal := averagePairwise_classes_mul_choose v weights
  rw [classCount, h.length_eq, pairTotal_perm (couplingBetween_comm honce) h] at htotal
  simpa [pairTotal, orderedPairs] using htotal

/-- **The total of an inner node** is that of its children and the total across them. -/
theorem pairTotal_node {w : String → String → ℚ} (hw : ∀ x y, w x y = w y x) {l r : Dendrogram ℚ}
    (h : l.classes.Disjoint r.classes) (n : String) (c : ℚ) (k : Nat) :
    pairTotal w (node n l r c k).classes =
      pairTotal w l.classes + pairTotal w r.classes + totalWeight w l.classes r.classes := by
  rw [pairTotal_perm hw (classes_node_perm h n c k), pairTotal_append]

/-! ### The sum of the weights of a table -/

/-- Elements without a value may be left out of a sum. -/
theorem sum_map_filter_of_eq_zero {β : Type} {p : β → Bool} {f : β → ℚ} {xs : List β}
    (h : ∀ x ∈ xs, p x = false → f x = 0) : ((xs.filter p).map f).sum = (xs.map f).sum := by
  induction xs with
  | nil => rfl
  | cons x rest ih =>
      have hrest := ih fun y hy => h y (List.mem_cons_of_mem x hy)
      cases hx : p x with
      | true => simp [hx, hrest]
      | false => simp [hx, hrest, h x List.mem_cons_self hx]

/-- **The total over all classes of a table is the sum of its weights**, when every key is in
increasing order. -/
theorem pairTotal_eq_sum_values {weights : CouplingWeights ℚ}
    (hlt : ∀ a b, (a, b) ∈ weights.keys → a < b) {xs : List String} (hxs : xs.Pairwise (· < ·))
    (hmem : ∀ a b, (a, b) ∈ weights.keys → a ∈ xs ∧ b ∈ xs) :
    pairTotal (couplingBetween weights) xs = weights.values.sum := by
  have hkeys : ((orderedPairs xs).filter fun p => decide (p ∈ weights.keys)).Perm weights.keys := by
    refine (List.perm_ext_iff_of_nodup ((nodup_orderedPairs (hxs.imp fun h => ne_of_lt h)).filter _)
      weights.distinct).mpr fun p => ?_
    rw [List.mem_filter, decide_eq_true_eq, mem_orderedPairs_of_pairwise_lt hxs]
    exact ⟨fun h => h.2, fun h => ⟨⟨(hmem _ _ h).1, (hmem _ _ h).2, hlt _ _ h⟩, h⟩⟩
  have hzero : ∀ p ∈ orderedPairs xs, decide (p ∈ weights.keys) = false →
      couplingBetween weights p.1 p.2 = 0 := fun p hp hkey => by
    have hpair := (mem_orderedPairs_of_pairwise_lt hxs).mp hp
    exact couplingBetween_of_not_mem (of_decide_eq_false hkey)
      fun hrev => lt_asymm hpair.2.2 (hlt _ _ hrev)
  have hentry : ∀ e ∈ weights.entries, couplingBetween weights e.1.1 e.1.2 = e.2 := fun e he =>
    (couplingBetween_of_mem (eachPairOnce_of_lt hlt) he).1
  calc pairTotal (couplingBetween weights) xs
      = (weights.keys.map fun p => couplingBetween weights p.1 p.2).sum := by
        rw [pairTotal, ← sum_map_filter_of_eq_zero hzero]
        exact (hkeys.map _).sum_eq
    _ = weights.values.sum := by
        rw [OrderedMap.keys, List.map_map, OrderedMap.values]
        exact congrArg List.sum (List.map_congr_left hentry)

end Linkage
