import Mathlib
import Linkage.Proofs.Analysis
import Linkage.Proofs.Module.PairTotal
import Linkage.Proofs.Module.Topmost

/-!
# When there is a module at all

Average linkage joins a pair of classes with the largest weight first, so the dendrogram has a
node of these two classes, and their average is that weight. The average of any other node is a
mean of weights and does not exceed it. A threshold up to the largest weight finds a module
therefore, and a higher one finds none. The limit does not matter, as the cut meets it at no
inner node.

Names must not be empty for this. A class with the empty name can be counted and weighed, but
no cluster is made of it, and an analysis of its table ends with an error.

## Main results

* `exists_strongest_node`: a dendrogram has a node whose average is the largest weight.
* `modules_ne_nil_iff_le_largest`: there is a module exactly when the threshold is at most the
  largest weight.
-/

namespace Linkage

open Dendrogram ClassSets

/-- The **weights between different classes** of a list. Classes without an entry have weight
zero. -/
def weightsAmong (classes : List String) (weights : CouplingWeights ℚ) : Set ℚ :=
  {w | ∃ x ∈ classes, ∃ y ∈ classes, x ≠ y ∧ couplingBetween weights x y = w}

/-- **The dendrogram of several classes has a pair of classes with the largest weight**: the
one that was joined first. -/
theorem exists_strongest_node {ν : Type} {counts : OrderedMap ClassPair ν}
    (htwo : 2 ≤ (classesIn counts).length) {weights : CouplingWeights ℚ}
    (honce : EachPairOnce weights) {stop : Nat → Bool} {t : Dendrogram ℚ}
    (ht : (Clusterer.ofTables counts weights stop).run.1.result = .ok (some t)) :
    ∃ v ∈ t.nodes, v.isLeaf = false ∧
      IsGreatest (weightsAmong (classesIn counts) weights) (averagePairwise v.classes weights) := by
  obtain ⟨fs, rest, hH, hend⟩ := exists_history_of_table counts honce stop
  obtain ⟨rfl, hperm⟩ := hend (some t) ht
  obtain ⟨x, hx, y, hy, hne, hfuse, hmax⟩ :=
    hH.exists_strongest (couplingBetween_comm honce) (nodup_classesIn counts) htwo
  have hfusions : fusionsOf (some t) = t.fusions := by simp [fusionsOf]
  obtain ⟨v, hv, hinner, hclasses⟩ :=
    exists_node_of_mem_fusions (hfusions ▸ hperm.mem_iff.mpr hfuse)
  have hpair : v.classes.Perm [x, y] := hclasses ▸ Text.members_perm (by simpa using hne)
  refine ⟨v, hv, hinner, ?_⟩
  rw [averagePairwise_classes_of_perm_pair honce hpair]
  refine ⟨⟨x, hx, y, hy, hne, rfl⟩, ?_⟩
  rintro w ⟨u, hu, u', hu', hne', rfl⟩
  exact hmax u hu u' hu' hne'

/-- **When there is a module at all**: for every table with two classes or more that holds each
pair once with weights that are not negative, and every threshold, an analysis that does not
keep singletons has a module exactly when the threshold is at most the largest weight between
two different classes. An analysis that is not stopped returns when no class has the empty
name. -/
theorem modules_ne_nil_iff_le_largest {counts : CouplingCounts}
    (htwo : 2 ≤ (classesIn counts).length) {weights : CouplingWeights ℚ}
    (honce : EachPairOnce weights) (hw : ∀ w ∈ weights.values, 0 ≤ w) {parameters : Parameters ℚ}
    (hkeep : parameters.keepSingletons = false) :
    ((∃ a, (analyseTables counts weights parameters fun _ => false).result = .ok a) ↔
      ∀ x ∈ classesIn counts, x ≠ "") ∧
    ∀ stop a, (analyseTables counts weights parameters stop).result = .ok a →
      ∃ largest, IsGreatest (weightsAmong (classesIn counts) weights) largest ∧
        (a.modules ≠ [] ↔ parameters.minCoupling ≤ largest) := by
  refine ⟨exists_analysis_of_tables_iff (by decide), fun stop a ha => ?_⟩
  obtain ⟨-, -, hrun, hmodules⟩ := stages_of_analyseTables ha
  obtain ⟨t, ht⟩ := exists_tree_of_run (List.ne_nil_of_length_pos (by omega)) hrun
  rw [ht] at hrun hmodules
  have hwf : t.WellFormed := (forest_of_run (by decide) hrun).wellFormed t (by simp)
  have hclasses : t.classes = classesIn counts := classes_of_run (by decide) hrun
  obtain ⟨v, hv, hinner, hlargest⟩ := exists_strongest_node htwo honce hrun
  have hfound : a.modules = (topmost (cohesive weights parameters.minCoupling) t).map
      (moduleOf weights parameters.naming) := by
    rw [hmodules, hkeep]
    exact Cutter.modules_eq_topmost hwf (averagePairwise_nonneg hw _) _ _
  refine ⟨_, hlargest, ?_⟩
  rw [hfound, ne_eq, List.map_eq_nil_iff, ← ne_eq, topmost_ne_nil_iff]
  constructor
  · rintro ⟨u, hu, hcohesive⟩
    rw [cohesive, Bool.and_eq_true, Bool.not_eq_true', decide_eq_true_eq] at hcohesive
    have hsub : u.classes ⊆ classesIn counts := hclasses ▸ classes_subset_of_mem_nodes hu
    refine hcohesive.2.trans (averagePairwise_classes_le
      ((hwf.of_mem_nodes hu).two_le_classCount_iff.mpr hcohesive.1) fun x hx y hy hne => ?_)
    exact hlargest.2 ⟨x, hsub hx, y, hsub hy, hne, rfl⟩
  · intro hreach
    exact ⟨v, hv, by simp [cohesive, hinner, hreach]⟩

/-- Three classes with the weights `3 / 4` and `1 / 4`: a threshold of one half finds the
module of the stronger pair. -/
theorem modules_ne_nil_iff_le_largest_of_three :
    let counts : CouplingCounts := .ofList [(("a", "b"), 3), (("a", "c"), 1)]
    let weights : CouplingWeights ℚ := .ofList [(("a", "b"), 3 / 4), (("a", "c"), 1 / 4)]
    let parameters : Parameters ℚ := ⟨1 / 2, false, "module"⟩
    2 ≤ (classesIn counts).length ∧ EachPairOnce weights ∧ (∀ w ∈ weights.values, 0 ≤ w) ∧
      parameters.keepSingletons = false ∧
      ∃ a, (analyseTables counts weights parameters fun _ => false).result = .ok a ∧
        a.modules ≠ [] ∧ a.modules.map Module.classes = [["a", "b"]] := by
  intro counts weights parameters
  have hclasses : classesIn counts = ["a", "b", "c"] := by
    subst counts
    cbv
  have htwo : 2 ≤ (classesIn counts).length := by simp [hclasses]
  have honce : EachPairOnce weights := by decide +kernel
  have hw : ∀ w ∈ weights.values, 0 ≤ w := by decide +kernel
  have hkeep : parameters.keepSingletons = false := rfl
  obtain ⟨hreturns, hiff⟩ := modules_ne_nil_iff_le_largest htwo honce hw hkeep
  obtain ⟨a, ha⟩ := hreturns.mpr (by simp [hclasses])
  obtain ⟨largest, hlargest, hmodules⟩ := hiff _ a ha
  have hweight : (3 / 4 : ℚ) ≤ largest :=
    hlargest.2 ⟨"a", by simp [hclasses], "b", by simp [hclasses], by decide, by decide +kernel⟩
  have hfound : ((analyseTables counts weights parameters fun _ => false).result.toOption.map
      fun a => a.modules.map Module.classes) = some [["a", "b"]] := by
    subst counts weights parameters
    cbv
  rw [ha] at hfound
  have hreach : parameters.minCoupling ≤ 3 / 4 := by decide +kernel
  exact ⟨htwo, honce, hw, hkeep, a, ha, hmodules.mpr (hreach.trans hweight), Option.some.inj hfound⟩

/-- A class with the empty name: the largest weight reaches the threshold, and there is no
analysis. -/
theorem no_modules_of_empty_name :
    let counts : CouplingCounts := .ofList [(("", "a"), 1)]
    let weights : CouplingWeights ℚ := .ofList [(("", "a"), 1)]
    let parameters : Parameters ℚ := ⟨1 / 2, false, "module"⟩
    (2 ≤ (classesIn counts).length ∧ EachPairOnce weights ∧ (∀ w ∈ weights.values, 0 ≤ w) ∧
      parameters.keepSingletons = false) ∧
      (IsGreatest (weightsAmong (classesIn counts) weights) 1 ∧ parameters.minCoupling ≤ 1) ∧
      (analyseTables counts weights parameters fun _ => false).result =
        .error (.halted (.refused .emptyName)) := by
  intro counts weights parameters
  have hclasses : classesIn counts = ["", "a"] := by
    subst counts
    cbv
  have hle : ∀ x ∈ ["", "a"], ∀ y ∈ ["", "a"], couplingBetween weights x y ≤ 1 := by decide +kernel
  refine ⟨⟨by simp [hclasses], by decide +kernel, by decide +kernel, rfl⟩,
    ⟨⟨?_, ?_⟩, by decide +kernel⟩, ?_⟩
  · exact ⟨"", by simp [hclasses], "a", by simp [hclasses], by decide, by decide +kernel⟩
  · rintro w ⟨x, hx, y, hy, -, rfl⟩
    exact hle x (hclasses ▸ hx) y (hclasses ▸ hy)
  · subst counts weights parameters
    cbv

end Linkage
