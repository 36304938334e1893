import Mathlib
import Linkage.Clustering.Clusterer
import Linkage.Proofs.Clustering.WeightMatrix
import Linkage.Proofs.Number.BlockedSum
import Linkage.Proofs.Text.Members

/-!
# Weights across two sets of classes

The total and the mean of a weight over all pairs of two lists of classes, in exact arithmetic.
The total is additive in either list, does not depend on their order, and is symmetric when the
weight is. The weight between two classes of a clusterer is the cell of the weight matrix in
their row and column; for a coupling table it is symmetric.

## Main results

* `totalWeight_append_right`, `totalWeight_perm_right`, `totalWeight_comm`: the total over
  pairs.
* `coupling_ofTables`: the weight between two classes is read off the table.
* `coupling_ofTables_eq_couplingBetween`: it is what a look-up finds in a table that holds each
  pair once.
* `clusterCoupling_eq_meanWeight`: the coupling of two clusters is the mean weight across them.
-/

namespace Linkage

/-! ### Totals and means over pairs -/

/-- The total of a weight over all pairs of two lists. -/
def totalWeight (w : String → String → ℚ) (xs ys : List String) : ℚ :=
  (xs.map fun x => (ys.map (w x)).sum).sum

/-- The mean of a weight over all pairs of two lists. -/
def meanWeight (w : String → String → ℚ) (xs ys : List String) : ℚ :=
  totalWeight w xs ys / ((xs.length * ys.length : ℕ) : ℚ)

section Totals

variable (w : String → String → ℚ)

@[simp] theorem totalWeight_nil_left (ys : List String) : totalWeight w [] ys = 0 := rfl

@[simp] theorem totalWeight_cons_left (x : String) (xs ys : List String) :
    totalWeight w (x :: xs) ys = (ys.map (w x)).sum + totalWeight w xs ys := by
  simp [totalWeight]

/-- The weight to two lists is the sum of the weights to each. -/
theorem totalWeight_append_right (xs ys zs : List String) :
    totalWeight w xs (ys ++ zs) = totalWeight w xs ys + totalWeight w xs zs := by
  simp only [totalWeight, List.map_append, List.sum_append, List.sum_map_add]

/-- The weight to a list does not depend on its order. -/
theorem totalWeight_perm_right (xs : List String) {ys zs : List String} (h : ys.Perm zs) :
    totalWeight w xs ys = totalWeight w xs zs := by
  simp only [totalWeight, (h.map _).sum_eq]

variable {w}

/-- The total of a symmetric weight is symmetric. -/
theorem totalWeight_comm (hw : ∀ x y, w x y = w y x) (xs ys : List String) :
    totalWeight w xs ys = totalWeight w ys xs := by
  induction xs with
  | nil => simp [totalWeight]
  | cons x xs ih =>
      have hcolumn : (ys.map (w x)).sum = (ys.map fun y => w y x).sum :=
        congrArg List.sum (List.map_congr_left fun y _ => hw x y)
      rw [totalWeight_cons_left, ih, hcolumn]
      simp only [totalWeight, List.map_cons, List.sum_cons, List.sum_map_add]

/-- The total of a weight that is not negative is not negative. -/
theorem totalWeight_nonneg (hw : ∀ x y, 0 ≤ w x y) (xs ys : List String) :
    0 ≤ totalWeight w xs ys := by
  refine List.sum_nonneg fun x hx => ?_
  obtain ⟨a, -, rfl⟩ := List.mem_map.mp hx
  refine List.sum_nonneg fun y hy => ?_
  obtain ⟨b, -, rfl⟩ := List.mem_map.mp hy
  exact hw a b

end Totals

section Means

variable {w w' : String → String → ℚ} {xs ys zs : List String}

/-- The mean weight between two classes is their weight. -/
@[simp] theorem meanWeight_singletons (w : String → String → ℚ) (x y : String) :
    meanWeight w [x] [y] = w x y := by
  simp [meanWeight, totalWeight]

/-- Mean weights are symmetric where weights are. -/
theorem meanWeight_comm (hw : ∀ x y, w x y = w y x) (xs ys : List String) :
    meanWeight w xs ys = meanWeight w ys xs := by
  rw [meanWeight, meanWeight, totalWeight_comm hw, Nat.mul_comm]

/-- The mean weight to a list does not depend on its order. -/
theorem meanWeight_perm_right (xs : List String) (h : ys.Perm zs) :
    meanWeight w xs ys = meanWeight w xs zs := by
  rw [meanWeight, meanWeight, totalWeight_perm_right w xs h, h.length_eq]

/-- A mean depends on the weights across the two lists alone. -/
theorem meanWeight_congr (h : ∀ x ∈ xs, ∀ y ∈ ys, w x y = w' x y) :
    meanWeight w xs ys = meanWeight w' xs ys := by
  have htotal : totalWeight w xs ys = totalWeight w' xs ys :=
    congrArg List.sum (List.map_congr_left fun x hx =>
      congrArg List.sum (List.map_congr_left fun y hy => h x hx y hy))
  rw [meanWeight, meanWeight, htotal]

/-- A mean times the number of pairs is the total. -/
theorem meanWeight_mul_length (w : String → String → ℚ) (hx : xs ≠ []) (hy : ys ≠ []) :
    meanWeight w xs ys * xs.length * ys.length = totalWeight w xs ys := by
  have hpos : 0 < xs.length * ys.length :=
    Nat.mul_pos (List.length_pos_iff.mpr hx) (List.length_pos_iff.mpr hy)
  rw [meanWeight, mul_assoc, ← Nat.cast_mul,
    div_mul_cancel₀ _ (Nat.cast_ne_zero.mpr hpos.ne')]

end Means

/-! ### Looking up weights by class -/

/-- Every class of a clusterer has a position. -/
theorem exists_position {c : Clusterer ℚ} {x : String} (h : x ∈ c.classes) :
    ∃ i, c.position? x = some i ∧ c.classes[i]? = some x := by
  obtain ⟨i, hi⟩ := Option.isSome_iff_exists.mp (List.isSome_idxOf?.mpr h)
  obtain ⟨hlt, heq, -⟩ := List.idxOf?_eq_some_iff.mp hi
  exact ⟨i, hi, by rw [List.getElem?_eq_getElem hlt, heq]⟩

section Tables

variable {ν : Type} (counts : OrderedMap ClassPair ν) (weights : CouplingWeights ℚ)
  (stop : Nat → Bool)

/-- The weight between two classes of a table. -/
theorem coupling_ofTables {x y : String} (hx : x ∈ classesIn counts) (hy : y ∈ classesIn counts) :
    (Clusterer.ofTables counts weights stop).coupling x y = cell weights (some x) (some y) := by
  obtain ⟨i, hi, hxi⟩ := exists_position (c := Clusterer.ofTables counts weights stop) hx
  obtain ⟨j, hj, hyj⟩ := exists_position (c := Clusterer.ofTables counts weights stop) hy
  have hnd : (classesIn counts).Nodup := Text.nodup_members _
  have hrow : (weightMatrix (classesIn counts) weights)[i]? =
      some ((classesIn counts).map fun b => cell weights (some x) (some b)) := by
    have hxi' : (classesIn counts)[i]? = some x := hxi
    rw [weightMatrix_of_nodup hnd, List.getElem?_map, hxi']
    rfl
  have hcell : ((classesIn counts).map fun b => cell weights (some x) (some b))[j]? =
      some (cell weights (some x) (some y)) := by
    have hyj' : (classesIn counts)[j]? = some y := hyj
    rw [List.getElem?_map, hyj']
    rfl
  calc (Clusterer.ofTables counts weights stop).coupling x y
      = ((weightMatrix (classesIn counts) weights).getD i []).getD j 0 := by
        simp only [Clusterer.coupling, hi, hj]
        rfl
    _ = cell weights (some x) (some y) := by
        simp only [List.getD_eq_getElem?_getD, hrow, Option.getD_some, hcell]

/-- The weight between two classes of a table does not depend on their order. -/
theorem coupling_ofTables_comm (x y : String) :
    (Clusterer.ofTables counts weights stop).coupling x y =
      (Clusterer.ofTables counts weights stop).coupling y x := by
  by_cases hx : x ∈ classesIn counts
  · by_cases hy : y ∈ classesIn counts
    · rw [coupling_ofTables counts weights stop hx hy, coupling_ofTables counts weights stop hy hx,
        cell_comm]
    · have hnone : (Clusterer.ofTables counts weights stop).position? y = none :=
        List.idxOf?_eq_none_iff.mpr hy
      simp only [Clusterer.coupling, hnone]
      cases (Clusterer.ofTables counts weights stop).position? x <;> rfl
  · have hnone : (Clusterer.ofTables counts weights stop).position? x = none :=
      List.idxOf?_eq_none_iff.mpr hx
    simp only [Clusterer.coupling, hnone]
    cases (Clusterer.ofTables counts weights stop).position? y <;> rfl

end Tables

/-- **A clusterer reads the weights of its table**, between two different classes. -/
theorem coupling_ofTables_eq_couplingBetween {ν : Type} {counts : OrderedMap ClassPair ν}
    {weights : CouplingWeights ℚ} (h : EachPairOnce weights) (stop : Nat → Bool) {a b : String}
    (ha : a ∈ classesIn counts) (hb : b ∈ classesIn counts) (hne : a ≠ b) :
    (Clusterer.ofTables counts weights stop).coupling a b = couplingBetween weights a b := by
  rw [coupling_ofTables counts weights stop ha hb, cell, if_neg hne,
    firstWeight_eq_couplingBetween rfl h hne]

/-! ### The coupling of two clusters -/

/-- Classes of a clusterer have as many positions as there are classes. -/
theorem length_filterMap_position {c : Clusterer ℚ} {xs : List String}
    (h : ∀ x ∈ xs, x ∈ c.classes) : (xs.filterMap c.position?).length = xs.length := by
  induction xs with
  | nil => rfl
  | cons x xs ih =>
      obtain ⟨i, hi, -⟩ := exists_position (h x (by simp))
      simp [hi, ih fun y hy => h y (by simp [hy])]

/-- The cells of a row at the positions of some classes are the couplings with them. -/
theorem map_cellAt_position {c : Clusterer ℚ} {x : String} {i : Nat} (hi : c.position? x = some i)
    {ys : List String} (h : ∀ y ∈ ys, y ∈ c.classes) :
    ((ys.filterMap c.position?).map fun j => c.cellAt i j) = ys.map (c.coupling x) := by
  induction ys with
  | nil => rfl
  | cons y ys ih =>
      obtain ⟨j, hj, -⟩ := exists_position (h y (by simp))
      have hcell : c.coupling x y = c.cellAt i j := by
        simp only [Clusterer.coupling, hi, hj]
      simp [hj, ih fun z hz => h z (by simp [hz]), hcell]

/-- The cells at the positions of two lists of classes sum to the weight between the lists. -/
theorem sum_cells_eq_totalWeight {c : Clusterer ℚ} {xs ys : List String}
    (hx : ∀ x ∈ xs, x ∈ c.classes) (hy : ∀ y ∈ ys, y ∈ c.classes) :
    ((xs.filterMap c.position?).flatMap fun i =>
      (ys.filterMap c.position?).map fun j => c.cellAt i j).sum = totalWeight c.coupling xs ys := by
  induction xs with
  | nil => rfl
  | cons x xs ih =>
      obtain ⟨i, hi, -⟩ := exists_position (hx x (by simp))
      rw [List.filterMap_cons_some hi, List.flatMap_cons, List.sum_append,
        map_cellAt_position hi hy, ih fun z hz => hx z (by simp [hz]), totalWeight_cons_left]

/-- **The coupling of two clusters is the mean weight across them.** -/
theorem clusterCoupling_eq_meanWeight {c : Clusterer ℚ} {xs ys : List String}
    (hx : ∀ x ∈ xs, x ∈ c.classes) (hy : ∀ y ∈ ys, y ∈ c.classes) (hxs : xs ≠ [])
    (hys : ys ≠ []) : c.clusterCoupling xs ys = meanWeight c.coupling xs ys := by
  have hrows := length_filterMap_position hx
  have hcolumns := length_filterMap_position hy
  have hsome : ((xs.filterMap c.position?).isEmpty || (ys.filterMap c.position?).isEmpty) =
      false := by
    rw [Bool.or_eq_false_iff, List.isEmpty_eq_false_iff, List.isEmpty_eq_false_iff]
    constructor
    · intro h
      rw [h, List.length_nil] at hrows
      exact hxs (List.length_eq_zero_iff.mp hrows.symm)
    · intro h
      rw [h, List.length_nil] at hcolumns
      exact hys (List.length_eq_zero_iff.mp hcolumns.symm)
  have hcount : ((xs.filterMap c.position?).flatMap fun i =>
      (ys.filterMap c.position?).map fun j => c.cellAt i j).length = xs.length * ys.length := by
    simp [List.length_flatMap, hrows, hcolumns]
  simp only [Clusterer.clusterCoupling, hsome, Bool.false_eq_true, if_false]
  rw [blockedMean_eq, sum_cells_eq_totalWeight hx hy, hcount, meanWeight]

end Linkage
