import Mathlib
import Linkage.Proofs.Module.Topmost

/-!
# Thresholds and refinement

A node that is cohesive under a threshold is cohesive under every lower one. A higher threshold
may divide a module or drop it, and it never joins classes that a lower one keeps apart: every
module lies within a module of the lower threshold. The averages of a tree may rise or fall
from a node to its children, and the two cuts may stop at different nodes and make different
numbers of modules.

## Main results

* `cohesive_of_le`: cohesion passes to lower thresholds.
* `topmost_modules_refine`: the modules of cohesive nodes under two thresholds.
* `modules_refine_of_le`: a higher threshold refines the modules of a tree.
-/

namespace Linkage

open Dendrogram

variable {α : Type} [Scalar α]

/-- A node that is cohesive under a threshold is cohesive under every lower one. -/
theorem cohesive_of_le [PreorderedScalar α] {weights : CouplingWeights α} {low high : α}
    (h : low ≤ high) (v : Dendrogram α) (hv : cohesive weights high v = true) :
    cohesive weights low v = true := by
  rw [cohesive, Bool.and_eq_true, decide_eq_true_eq] at hv ⊢
  exact ⟨hv.1, PreorderedScalar.le_trans h hv.2⟩

/-- The modules of the topmost cohesive nodes under a threshold lie within those under a lower
one. -/
theorem topmost_modules_refine [PreorderedScalar α] {weights : CouplingWeights α} {low high : α}
    (h : low ≤ high) (naming naming' : String) (t : Dendrogram α) :
    ∀ m ∈ (topmost (cohesive weights high) t).map (moduleOf weights naming),
      ∃ m' ∈ (topmost (cohesive weights low) t).map (moduleOf weights naming'),
        m.classes ⊆ m'.classes := by
  intro m hm
  obtain ⟨v, hv, rfl⟩ := List.mem_map.mp hm
  obtain ⟨u, hu, hvu⟩ := exists_topmost_superset (cohesive_of_le h) hv
  exact ⟨moduleOf weights naming' u, List.mem_map_of_mem hu, hvu⟩

/-- **A higher threshold refines the modules of a tree**, when no weight is negative,
singletons are not kept and the total is the number of classes: every module lies within a
module of the lower threshold. So raising the threshold leaves no more classes in modules than
before. -/
theorem modules_refine_of_le [OrderedScalar α] {root : Option (Dendrogram α)}
    (hroot : ∀ t, root = some t → Built t) {weights : CouplingWeights α}
    (hw : ∀ w ∈ weights.values, 0 ≤ w) {low high : α} (h : low ≤ high) (naming : String) :
    let coarse := identifyModules root weights low none false naming
    let fine := identifyModules root weights high none false naming
    (∀ m ∈ fine, ∃ m' ∈ coarse, m.classes ⊆ m'.classes) ∧
      fine.flatMap Module.classes ⊆ coarse.flatMap Module.classes := by
  cases root with
  | none => exact ⟨fun m hm => absurd hm List.not_mem_nil, List.Subset.refl _⟩
  | some t =>
      intro coarse fine
      have hfound : ∀ threshold, identifyModules (some t) weights threshold none false naming =
          (topmost (cohesive weights threshold) t).map (moduleOf weights naming) := fun threshold =>
        Cutter.modules_eq_topmost (hroot t rfl).wellFormed (averagePairwise_nonneg hw _) threshold
          naming
      have hrefine : ∀ m ∈ fine, ∃ m' ∈ coarse, m.classes ⊆ m'.classes := by
        rw [show fine = _ from hfound high, show coarse = _ from hfound low]
        exact topmost_modules_refine h naming naming t
      refine ⟨hrefine, fun x hx => ?_⟩
      obtain ⟨m, hm, hxm⟩ := List.mem_flatMap.mp hx
      obtain ⟨m', hm', hsub⟩ := hrefine m hm
      exact List.mem_flatMap.mpr ⟨m', hm', hsub hxm⟩

/-- The threshold `1 / 10` takes the root of two pairs, and `3 / 5` takes one pair and drops
the other. -/
theorem modules_refine_of_le_of_two_pairs :
    let weights : CouplingWeights Extended :=
      .ofList [(("a", "b"), .finite (3 / 4)), (("c", "d"), .finite (1 / 2))]
    let ab : Dendrogram Extended := node "cluster-001" (leaf "a" 0) (leaf "b" 0) (.finite (3 / 4)) 1
    let cd : Dendrogram Extended := node "cluster-002" (leaf "c" 0) (leaf "d" 0) (.finite (1 / 2)) 2
    let t := node "cluster-003" ab cd 0 3
    let coarse := identifyModules (some t) weights (.finite (1 / 10)) none false "module"
    let fine := identifyModules (some t) weights (.finite (3 / 5)) none false "module"
    Built t ∧ (∀ w ∈ weights.values, 0 ≤ w) ∧
      Extended.finite (1 / 10) ≤ Extended.finite (3 / 5) ∧
      coarse.map Module.classes = [["a", "b", "c", "d"]] ∧ fine.map Module.classes = [["a", "b"]] ∧
      ∀ m ∈ fine, ∃ m' ∈ coarse, m.classes ⊆ m'.classes := by
  intro weights ab cd t coarse fine
  have ht : Built t := by
    have hflat : ((0 : Extended) == 0) = true := by decide
    refine WellFormed.built ?_
    simp [t, ab, cd, WellFormed, List.Disjoint, mem_classes_node, hflat]
  have hroot : ∀ u, some t = some u → Built u := by
    rintro u ⟨⟩
    exact ht
  have hw : ∀ w ∈ weights.values, 0 ≤ w := by decide +kernel
  have hle : Extended.finite (1 / 10) ≤ Extended.finite (3 / 5) := by decide +kernel
  have hcoarse : coarse.map Module.classes = [["a", "b", "c", "d"]] := by
    subst coarse t ab cd weights
    cbv
  have hfine : fine.map Module.classes = [["a", "b"]] := by
    subst fine t ab cd weights
    cbv
  exact ⟨ht, hw, hle, hcoarse, hfine, (modules_refine_of_le hroot hw hle "module").1⟩

end Linkage
