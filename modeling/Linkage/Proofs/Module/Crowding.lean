import Mathlib
import Linkage.Proofs.Module.Singletons

/-!
# Singletons and the modules of cohesive nodes

With and without singletons a cut walks over the same parts of a tree: its topmost cohesive
nodes, and the leaves below none of them. Without singletons it makes modules of the cohesive
nodes and is not limited. With singletons every part takes up room, a leaf as much as a
cohesive node, and the cut ends at the limit. So leaves to the left of a cohesive node may take
up its room, and then its module is lost. The modules with two classes or more that are left
are the first ones of those found.

## Main results

* `filter_parts_eq_topmost`: the parts with two classes are the topmost cohesive nodes.
* `mem_kept_iff_idxOf_parts_lt`: which modules are left when singletons are kept.
-/

namespace Linkage

open Dendrogram

variable {α : Type} [Scalar α]

/-- **The parts that are not leaves are the topmost cohesive nodes.** Induction on the tree. -/
theorem filter_parts_eq_topmost (weights : CouplingWeights α) (threshold : α) (t : Dendrogram α) :
    ((parts weights threshold t).filter fun v => !v.isLeaf) =
      topmost (cohesive weights threshold) t := by
  induction t with
  | leaf n c => simp [topmost_leaf, isLeaf]
  | node n l r c k ihl ihr =>
      rw [parts_node, topmost_node]
      by_cases hreach : threshold ≤ averagePairwise (node n l r c k).classes weights
      · rw [if_pos hreach, if_pos (cohesive_node_iff.mpr hreach)]
        rfl
      · rw [if_neg hreach, if_neg (mt cohesive_node_iff.mp hreach), List.filter_append, ihl, ihr]

/-- The parts of a tree are nodes of it. -/
theorem parts_subset_nodes (weights : CouplingWeights α) (threshold : α) (t : Dendrogram α) :
    parts weights threshold t ⊆ t.nodes := by
  rw [parts_eq_topmost]
  exact fun v hv => mem_nodes_of_mem_topmost hv

/-- The parts with two classes or more are those that are not leaves. -/
theorem filter_two_le_parts {weights : CouplingWeights α} {threshold : α} {t : Dendrogram α}
    (ht : t.WellFormed) {vs : List (Dendrogram α)} (hvs : vs ⊆ parts weights threshold t) :
    (vs.filter fun v => decide (2 ≤ v.classCount)) = vs.filter fun v => !v.isLeaf := by
  refine List.filter_congr fun v hv => ?_
  have hwf := ht.of_mem_nodes (parts_subset_nodes weights threshold t (hvs hv))
  rw [Bool.eq_iff_iff, decide_eq_true_eq, Bool.not_eq_true', hwf.two_le_classCount_iff]

section Kept

variable {t : Dendrogram α} (ht : t.WellFormed) (weights : CouplingWeights α) (threshold : α)
  (naming : String) {found kept : List (Module α)} {limit : ℕ}
  (hfound : found = (topmost (cohesive weights threshold) t).map (moduleOf weights naming))
  (hkept : kept = ((parts weights threshold t).take limit).map (moduleOf weights naming))

include hfound hkept

/-- A topmost cohesive node is a part, and it is among the first parts when there is room for
those up to it. -/
theorem mem_groups_of_mem_topmost {m : Module α} (hm : m ∈ found) :
    m.classes ∈ (parts weights threshold t).map classes ∧
      (m.classes ∈ kept.map Module.classes ↔
        ((parts weights threshold t).map classes).idxOf m.classes < limit) := by
  rw [hfound, ← filter_parts_eq_topmost] at hm
  obtain ⟨v, hv, rfl⟩ := List.mem_map.mp hm
  have hgroup : v.classes ∈ (parts weights threshold t).map classes :=
    List.mem_map_of_mem (List.mem_of_mem_filter hv)
  have hclasses : kept.map Module.classes =
      ((parts weights threshold t).map classes).take limit := by
    rw [hkept, List.map_map, ← List.map_take]
    rfl
  refine ⟨hgroup, ?_⟩
  rw [hclasses]
  exact List.mem_take_iff_idxOf_lt hgroup

include ht

/-- The first parts with two classes or more are the first ones of the topmost
cohesive nodes. -/
theorem filter_kept_prefix_topmost :
    (kept.filter fun m => decide (2 ≤ m.classCount)) <+: found := by
  have hfilter : (kept.filter fun m => decide (2 ≤ m.classCount)) =
      (((parts weights threshold t).take limit).filter fun v => !v.isLeaf).map
        (moduleOf weights naming) := by
    rw [hkept, List.filter_map, ← filter_two_le_parts ht (List.take_subset _ _)]
    rfl
  rw [hfilter, hfound, ← filter_parts_eq_topmost]
  exact ((List.take_prefix limit _).filter _).map _

end Kept

/-- **Which modules are left when singletons are kept.** The total is the number of classes, no
weight is negative and the threshold is any. A set of classes that is found without singletons
is a part of the tree, and it is kept exactly when there is room for the parts up to it. The
modules kept with two classes or more are the first ones of those found, and all of these are
kept when there is room for every part. -/
theorem mem_kept_iff_idxOf_parts_lt [OrderedScalar α] {t : Dendrogram α} (ht : Built t)
    {weights : CouplingWeights α} (hw : ∀ w ∈ weights.values, 0 ≤ w) (threshold : α)
    (naming : String) {total : Option Int} (htotal : total.getD t.classCount = t.classCount) :
    let groups := (parts weights threshold t).map classes
    let limit := t.classCount / 2
    let found := identifyModules (some t) weights threshold total false naming
    let kept := identifyModules (some t) weights threshold total true naming
    (∀ m ∈ found, m.classes ∈ groups ∧
      (m.classes ∈ kept.map Module.classes ↔ groups.idxOf m.classes < limit)) ∧
    (kept.filter fun m => decide (2 ≤ m.classCount)) <+: found ∧
    (groups.length ≤ limit → found ⊆ kept) := by
  intro groups limit found kept
  have hwf := ht.wellFormed
  have hcount : ∀ keep, identifyModules (some t) weights threshold total keep naming =
      identifyModules (some t) weights threshold (some (t.classCount : ℕ)) keep naming := by
    intro keep
    rw [identifyModules, show classTotal (some t) = (t.classCount : Int) from rfl, htotal]
    rfl
  have hfound : found = (topmost (cohesive weights threshold) t).map (moduleOf weights naming) :=
    (hcount false).trans
      (Cutter.modules_eq_topmost hwf (averagePairwise_nonneg hw _) threshold naming)
  have hkept : kept = ((parts weights threshold t).take limit).map (moduleOf weights naming) := by
    rw [show kept = _ from hcount true, identifyModules_eq_cut]
    exact (CutRule.cut_of_keepSingletons rfl rfl t _ (CutRule.sound_nil weights)).1
  refine ⟨fun m hm => mem_groups_of_mem_topmost weights threshold naming hfound hkept hm,
    filter_kept_prefix_topmost hwf weights threshold naming hfound hkept, fun hroom => ?_⟩
  rw [hkept, hfound, ← filter_parts_eq_topmost,
    List.take_of_length_le (by rwa [List.length_map] at hroom)]
  exact List.map_subset _ (List.filter_subset_self _)

/-- A pair to the left of two leaves: there is room for it, and for one of the leaves. -/
theorem mem_kept_iff_idxOf_parts_lt_of_pair_first :
    let weights : CouplingWeights ℚ := .ofList [(("a", "b"), 3 / 5), (("c", "d"), 1 / 4)]
    let ab : Dendrogram ℚ := node "cluster-001" (leaf "a" 0) (leaf "b" 0) (3 / 5) 1
    let cd : Dendrogram ℚ := node "cluster-002" (leaf "c" 0) (leaf "d" 0) (1 / 4) 2
    let t := node "cluster-003" ab cd 0 3
    let found := identifyModules (some t) weights (2 / 5) none false "module"
    let kept := identifyModules (some t) weights (2 / 5) none true "module"
    Built t ∧ (∀ w ∈ weights.values, 0 ≤ w) ∧ (none : Option Int).getD t.classCount = t.classCount ∧
      found.map Module.classes = [["a", "b"]] ∧ kept.map Module.classes = [["a", "b"], ["c"]] ∧
      (kept.filter fun m => decide (2 ≤ m.classCount)) <+: found := by
  intro weights ab cd t found kept
  have ht : Built t := by
    refine WellFormed.built ?_
    simp [t, ab, cd, WellFormed, List.Disjoint, mem_classes_node]
  have hw : ∀ w ∈ weights.values, 0 ≤ w := by decide +kernel
  have hfound : found.map Module.classes = [["a", "b"]] := by
    subst found t ab cd weights
    cbv
  have hkept : kept.map Module.classes = [["a", "b"], ["c"]] := by
    subst kept t ab cd weights
    cbv
  exact ⟨ht, hw, rfl, hfound, hkept, (mem_kept_iff_idxOf_parts_lt ht hw (2 / 5) "module" rfl).2.1⟩

/-- Two leaves to the left of a cohesive pair: keeping them leaves no room for its module. -/
theorem lost_of_leaves_first :
    let weights : CouplingWeights ℚ :=
      .ofList [(("c", "d"), 1 / 2), (("b", "c"), 1 / 4), (("a", "d"), 1 / 8)]
    let cd : Dendrogram ℚ := node "cluster-001" (leaf "c" 0) (leaf "d" 0) (1 / 2) 1
    let bcd : Dendrogram ℚ := node "cluster-002" (leaf "b" 0) cd (1 / 8) 2
    let t := node "cluster-003" (leaf "a" 0) bcd (1 / 24) 3
    let total : Option Int := some t.classCount
    Built t ∧ (∀ w ∈ weights.values, 0 ≤ w) ∧
      (identifyModules (some t) weights (2 / 5) total false "module").map Module.classes =
        [["c", "d"]] ∧
      (identifyModules (some t) weights (2 / 5) total true "module").map Module.classes =
        [["a"], ["b"]] := by
  intro weights cd bcd t total
  refine ⟨WellFormed.built ?_, by decide +kernel, ?_, ?_⟩
  · simp [t, bcd, cd, WellFormed, List.Disjoint, mem_classes_node]
  · subst total t bcd cd weights
    cbv
  · subst total t bcd cd weights
    cbv

end Linkage
