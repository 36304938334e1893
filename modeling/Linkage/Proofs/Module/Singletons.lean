import Mathlib
import Linkage.Proofs.Module.Cuts

/-!
# Cutting with singletons kept

When singletons are kept, a leaf that no cohesive node covers is a module of its own. Without a
limit the cut would make modules of the *parts* of a tree: its topmost cohesive nodes and the
leaves below no such node, in the order of the walk. They divide the classes of the tree. At
the limit the cut makes nothing any more, whatever is left of the walk, so its modules are the
first parts.

Nothing is asked of the weights here, and the averages may be undefined.

## Main results

* `parts_eq_topmost`: the parts are the topmost nodes among leaves and cohesive nodes.
* `parts_perm`: the parts divide the classes of a tree.
* `misses_iff_of_mem_parts`: the module of a part misses a threshold when it is a leaf and the
  threshold is positive.
* `CutRule.Cuts.eq_take_parts`: the cut of a subtree makes as many of its parts as there is
  room for.
* `covers_take_iff`: the first parts hold every class only when they are all parts.
* `identifyModules_eq_take_parts`: the modules of a tree when singletons are kept, and their
  check.
-/

namespace Linkage

open Dendrogram

variable {α : Type} [Scalar α]

/-! ### The parts of a tree -/

/-- The **parts** of a tree: its cohesive nodes and its leaves, unless a node above them is
cohesive, in the order of the walk. -/
def parts (weights : CouplingWeights α) (threshold : α) (t : Dendrogram α) : List (Dendrogram α) :=
  ((lineage [] t).filter fun e => (e.2.isLeaf || cohesive weights threshold e.2) &&
    !e.1.any (cohesive weights threshold)).map Prod.snd

/-- The parts are the topmost nodes among leaves and cohesive nodes: no node is below
a leaf. -/
theorem parts_eq_topmost (weights : CouplingWeights α) (threshold : α) (t : Dendrogram α) :
    parts weights threshold t = topmost (fun v => v.isLeaf || cohesive weights threshold v) t := by
  rw [parts, topmost]
  refine congrArg _ (List.filter_congr fun e he => ?_)
  have hroot : ∀ u ∈ ([] : List (Dendrogram α)), u.isLeaf = false := by simp
  have hinner := not_isLeaf_of_mem_lineage hroot e he
  have hany : e.1.any (cohesive weights threshold) =
      e.1.any fun v => v.isLeaf || cohesive weights threshold v := by
    rw [Bool.eq_iff_iff, List.any_eq_true, List.any_eq_true]
    exact exists_congr fun v => and_congr_right fun hv => by rw [hinner v hv, Bool.false_or]
  rw [isTopmost, hany]

section Parts

variable (weights : CouplingWeights α) (threshold : α)

/-- A leaf is the one part of itself. -/
@[simp] theorem parts_leaf (n : String) (c : α) :
    parts weights threshold (leaf n c) = [leaf n c] := by
  simp [parts_eq_topmost, topmost_leaf, isLeaf]

/-- The parts of a tree: its root when it is cohesive, or else those of its children. -/
theorem parts_node (n : String) (l r : Dendrogram α) (c : α) (k : Nat) :
    parts weights threshold (node n l r c k) =
      if threshold ≤ averagePairwise (node n l r c k).classes weights then [node n l r c k]
      else parts weights threshold l ++ parts weights threshold r := by
  simp only [parts_eq_topmost, topmost_node, isLeaf, Bool.false_or, cohesive_node_iff]

/-- **The parts divide the classes of a tree.** -/
theorem parts_perm {t : Dendrogram α} (ht : t.WellFormed) :
    ((parts weights threshold t).flatMap classes).Perm t.classes := by
  rw [parts_eq_topmost]
  exact flatMap_classes_topmost_perm (fun _ _ => rfl) ht

variable {weights threshold}

/-- A part is a leaf, or the average between its classes reaches the threshold. -/
theorem of_mem_parts {t v : Dendrogram α} (h : v ∈ parts weights threshold t) :
    v.isLeaf = true ∨ threshold ≤ averagePairwise v.classes weights := by
  rw [parts_eq_topmost] at h
  have hpart := of_mem_topmost h
  rw [cohesive, Bool.or_eq_true, Bool.and_eq_true, decide_eq_true_eq] at hpart
  exact hpart.imp_right And.right

/-- **A part misses the threshold** exactly when it is a leaf and the threshold is positive. -/
theorem misses_iff_of_mem_parts [PreorderedScalar α] [TotalScalar α]
    (hdefined : Scalar.isUndefined threshold = false) {t v : Dendrogram α}
    (h : v ∈ parts weights threshold t) :
    ¬ threshold ≤ averagePairwise v.classes weights ↔ 0 < threshold ∧ v.isLeaf = true := by
  have hpositive : ¬ threshold ≤ 0 ↔ 0 < threshold :=
    TotalScalar.not_le_iff_lt (by simpa [Scalar.isUndefined] using hdefined)
      PreorderedScalar.zero_nonneg
  cases v with
  | leaf n c =>
      rw [averagePairwise_leaf, hpositive]
      simp [isLeaf]
  | node n l r c k =>
      have hreach := (of_mem_parts h).resolve_left (by simp [isLeaf])
      simp [hreach, isLeaf]

end Parts

/-! ### The cut -/

namespace CutRule

/-- **Where singletons are kept, the rules of a cut** add as many parts of a subtree as there
is room for. Induction on the rules: what the left child adds takes up room of the right one,
so that the two add the first parts of both together. -/
theorem Cuts.eq_take_parts {rule : CutRule α} {limit : Nat} (hkeep : rule.keepSingletons = true)
    (hlimit : rule.maxModules = limit) {t : Dendrogram α} {ms ms' : List (Module α)}
    (h : Cuts rule t ms ms') :
    ms' = ms ++ ((parts rule.weights rule.threshold t).take (limit - ms.length)).map
      (moduleOf rule.weights rule.naming) := by
  induction h with
  | @drop t ms full _ =>
      have hfull : limit - ms.length = 0 := by omega
      rw [hfull, List.take_zero, List.map_nil, List.append_nil]
  | keep room _ =>
      rw [parts_leaf, List.take_of_length_le (by rw [List.length_singleton]; omega),
        List.map_singleton]
  | @accept t ms reach offered room =>
      cases t with
      | leaf n c => exact absurd ((offered rfl).symm.trans hkeep) Bool.false_ne_true
      | node n l r c k =>
          have hroom := room (.inr hkeep)
          rw [parts_node, if_pos reach,
            List.take_of_length_le (by rw [List.length_singleton]; omega), List.map_singleton]
  | reject _ offered => exact absurd (offered.symm.trans hkeep) Bool.false_ne_true
  | divide room low _ _ ihl ihr =>
      rw [parts_node, if_neg low, ihr, ihl, List.take_append, List.map_append, List.append_assoc]
      simp only [List.length_append, List.length_map, List.length_take]
      congr 4
      omega

/-- The cut of a subtree with singletons kept makes as many of its parts as there is
room for. -/
theorem cut_of_keepSingletons {rule : CutRule α} {limit : Nat} (hkeep : rule.keepSingletons = true)
    (hlimit : rule.maxModules = limit) (t : Dendrogram α) :
    ∀ s : CutState α, Sound rule.weights s.averages →
      (rule.cut t s).modules = s.modules ++
          ((parts rule.weights rule.threshold t).take (limit - s.modules.length)).map
            (moduleOf rule.weights rule.naming) ∧
        Sound rule.weights (rule.cut t s).averages :=
  fun s hs => (cuts_cut rule t s hs).imp_left (Cuts.eq_take_parts hkeep hlimit)

end CutRule

/-! ### Classes without a module -/

/-- Where lists have no element in common, and none is empty, **the first of them hold every
element only when they are all of the lists**. -/
theorem covers_take_iff {β γ : Type} {f : β → List γ} {vs : List β} (hne : ∀ v ∈ vs, f v ≠ [])
    (hnodup : (vs.flatMap f).Nodup) {limit : Nat} :
    (∀ x ∈ vs.flatMap f, ∃ v ∈ vs.take limit, x ∈ f v) ↔ vs.length ≤ limit := by
  constructor
  · intro hall
    by_contra hmore
    have hlt : limit < vs.length := not_le.mp hmore
    have hsplit : vs.flatMap f = (vs.take limit).flatMap f ++ (vs.drop limit).flatMap f := by
      rw [← List.flatMap_append, List.take_append_drop]
    obtain ⟨x, hx⟩ := List.exists_mem_of_ne_nil _ (hne vs[limit] (List.getElem_mem hlt))
    have hdrop : x ∈ (vs.drop limit).flatMap f :=
      List.mem_flatMap.mpr ⟨vs[limit],
        List.drop_eq_getElem_cons hlt ▸ List.mem_cons_self, hx⟩
    obtain ⟨v, hv, hxv⟩ := hall x (hsplit ▸ List.mem_append_right _ hdrop)
    rw [hsplit] at hnodup
    exact (List.nodup_append'.mp hnodup).2.2 (List.mem_flatMap.mpr ⟨v, hv, hxv⟩) hdrop
  · intro hfew x hx
    rw [List.take_of_length_le hfew]
    exact List.mem_flatMap.mp hx

/-! ### The modules of a tree -/

section Total

variable (root : Option (Dendrogram α)) (weights : CouplingWeights α) (threshold : α) (total : ℕ)
  (keep : Bool) (naming : String)

/-- Halves of natural numbers are rounded down. -/
theorem fdiv_natCast_two (n : ℕ) : Int.fdiv n 2 = (n / 2 : ℕ) :=
  Int.fdiv_eq_ediv_of_nonneg _ (by omega)

/-- The modules of a tree under a total are those of a cut that starts with nothing and is
limited to half of the total. -/
theorem identifyModules_eq_cut (t : Dendrogram α) :
    identifyModules (some t) weights threshold (some (total : Int)) keep naming =
      (CutRule.cut ⟨(total / 2 : ℕ), threshold, weights, keep, naming⟩ t
        ⟨[], [], [.cutting (total / 2 : ℕ) threshold]⟩).modules := by
  rw [← fdiv_natCast_two]
  rfl

/-- A check is within its budget when there are at most half as many modules as the total. -/
theorem withinBudget_verify_iff (modules : List (Module α)) :
    ((Cutter.ofTree root total threshold weights keep naming).verify modules).withinBudget = true ↔
      modules.length ≤ total / 2 := by
  simp only [Cutter.verify, Cutter.ofTree, fdiv_natCast_two, decide_eq_true_eq, Int.ofNat_le]

end Total

/-- **The modules of a tree when singletons are kept** are its first parts, as many as half of
the total allows, for every table and every threshold that is not undefined. The parts divide
the classes of the tree, so every class has a module exactly when no part is left out. There
are never too many modules, and one of them misses the threshold exactly when the threshold is
positive and a leaf is among them. -/
theorem identifyModules_eq_take_parts [PreorderedScalar α] [TotalScalar α] {t : Dendrogram α}
    (ht : Built t) (weights : CouplingWeights α) {threshold : α}
    (hdefined : Scalar.isUndefined threshold = false) (total : Option ℕ) (naming : String) :
    let limit := total.getD t.classCount / 2
    let found := identifyModules (some t) weights threshold (total.map Int.ofNat) true naming
    let check := (Cutter.ofTree (some t) (total.getD t.classCount : ℕ) threshold weights true
      naming).verify found
    found = ((parts weights threshold t).take limit).map (moduleOf weights naming) ∧
    (∀ v ∈ parts weights threshold t, v.classes ≠ []) ∧
    ((parts weights threshold t).flatMap classes).Perm t.classes ∧
    ((∀ x ∈ t.classes, ∃ m ∈ found, x ∈ m.classes) ↔
      (parts weights threshold t).length ≤ limit) ∧
    check.withinBudget = true ∧
    (check.meetsMinCoupling = false ↔
      0 < threshold ∧ ∃ v ∈ (parts weights threshold t).take limit, v.isLeaf = true) := by
  intro limit found check
  have hwf := ht.wellFormed
  have htotal : identifyModules (some t) weights threshold (total.map Int.ofNat) true naming =
      identifyModules (some t) weights threshold
        (some (total.getD t.classCount : ℕ)) true naming := by
    cases total <;> rfl
  have hfound : found =
      ((parts weights threshold t).take limit).map (moduleOf weights naming) := by
    rw [show found = _ from htotal, identifyModules_eq_cut]
    exact (CutRule.cut_of_keepSingletons rfl rfl t _ (CutRule.sound_nil weights)).1
  have hperm := parts_perm weights threshold hwf
  have hnodup : ((parts weights threshold t).flatMap classes).Nodup :=
    hperm.nodup_iff.mpr (t.pairwise_classes.imp fun h => ne_of_lt h)
  refine ⟨hfound, fun v _ => v.classes_ne_nil, hperm, ?_, ?_, ?_⟩
  · rw [← covers_take_iff (fun v _ => v.classes_ne_nil) hnodup, hfound]
    simp only [hperm.mem_iff, List.mem_map, exists_exists_and_eq_and]
    rfl
  · rw [withinBudget_verify_iff, hfound, List.length_map, List.length_take]
    exact Nat.min_le_left _ _
  · have hmiss : ∀ v ∈ (parts weights threshold t).take limit,
        ¬ threshold ≤ (moduleOf weights naming v).averageCoupling ↔
          0 < threshold ∧ v.isLeaf = true := fun v hv =>
      misses_iff_of_mem_parts hdefined (List.mem_of_mem_take hv)
    have hcheck : check.meetsMinCoupling =
        found.all fun m => decide (threshold ≤ m.averageCoupling) := rfl
    rw [hcheck, hfound, List.all_map, List.all_eq_false]
    simp only [Function.comp_apply, decide_eq_true_eq]
    constructor
    · rintro ⟨v, hv, h⟩
      obtain ⟨hpos, hleaf⟩ := (hmiss v hv).mp h
      exact ⟨hpos, v, hv, hleaf⟩
    · rintro ⟨hpos, v, hv, hleaf⟩
      exact ⟨v, hv, (hmiss v hv).mpr ⟨hpos, hleaf⟩⟩

/-- At the threshold `2 / 5` the parts are the pair of `a` and `b` and the leaves `c` and `d`;
there is room for two modules, so `d` has none, and `c` misses the threshold. -/
theorem identifyModules_eq_take_parts_of_four_classes :
    let weights : CouplingWeights ℚ :=
      .ofList [(("a", "b"), 3 / 5), (("c", "d"), 3 / 10), (("a", "c"), 1 / 10)]
    let ab : Dendrogram ℚ := node "cluster-001" (leaf "a" 0) (leaf "b" 0) (3 / 5) 1
    let cd : Dendrogram ℚ := node "cluster-002" (leaf "c" 0) (leaf "d" 0) (3 / 10) 2
    let t := node "cluster-003" ab cd (1 / 40) 3
    let found := identifyModules (some t) weights (2 / 5) none true "module"
    Built t ∧ found.map Module.classes = [["a", "b"], ["c"]] ∧
      (parts weights (2 / 5) t).map name = ["cluster-001", "c", "d"] ∧
      (¬ ∀ x ∈ t.classes, ∃ m ∈ found, x ∈ m.classes) ∧
      ((Cutter.ofTree (some t) (t.classCount : ℕ) (2 / 5) weights true "module").verify
        found).meetsMinCoupling = false := by
  intro weights ab cd t found
  have ht : Built t := by
    refine WellFormed.built ?_
    simp [t, ab, cd, WellFormed, List.Disjoint, mem_classes_node]
  have hpair : ab.classes = ["a", "b"] := by
    subst ab
    cbv
  have hparts : parts weights (2 / 5) t = [ab, leaf "c" 0, leaf "d" 0] := by
    subst t ab cd
    cbv
  have hlimit : (none : Option ℕ).getD t.classCount / 2 = 2 := by
    subst t ab cd
    cbv
  have hdefined : Scalar.isUndefined (2 / 5 : ℚ) = false := by decide +kernel
  obtain ⟨hfound, -, -, hassigned, -, hmeets⟩ :=
    identifyModules_eq_take_parts ht weights hdefined none "module"
  rw [hlimit, hparts] at hfound hassigned hmeets
  refine ⟨ht, ?_, ?_, ?_, hmeets.mpr ⟨by norm_num, leaf "c" 0, by simp, rfl⟩⟩
  · rw [show found = _ from hfound]
    simp [moduleOf, Module.ofNode, hpair]
  · rw [hparts]
    rfl
  · exact fun hall => absurd (hassigned.mp hall) (by decide)

end Linkage
