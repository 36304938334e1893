import Mathlib
import Linkage.Clustering.Clusterer
import Linkage.Proofs.Module.Singletons

/-!
# How many modules a cut makes

The limit of a cut is half of a total, and the total is meant to be the number of classes of
the tree. With singletons kept nothing is made at the limit, so the limit holds for every
total. Without them an inner node is still offered there, and what limits the modules is the
tree: they share no class and have two each at least. A total that is smaller than the tree is
exceeded.

## Main results

* `CutRule.Cuts.two_mul_length_le`: a cut makes at most half as many modules as its subtree has
  classes.
* `CutRule.Cuts.length_le_of_reach`: where the root reaches the threshold it makes one module
  at most.
* `CutRule.length_cut_le_limit`, `CutRule.length_cut_le_max`: a cut with and without singletons
  kept.
* `length_identifyModules_le`: the modules of a tree and the limit of the cut.
* `length_identifyModules_gt_of_small_total`: a total that is smaller than the tree.
-/

namespace Linkage

open Dendrogram

variable {α : Type} [Scalar α]

namespace CutRule

variable {rule : CutRule α} {t : Dendrogram α} {ms ms' : List (Module α)}

/-- **A cut makes at most half as many modules as its subtree has classes**, when singletons
are not kept and the threshold is positive or undefined. Induction on the rules: an inner node
that is accepted, at the limit or below it, is one module and has two classes at least. -/
theorem Cuts.two_mul_length_le (h : Cuts rule t ms ms') (hkeep : rule.keepSingletons = false)
    (hpos : ¬ rule.threshold ≤ 0) (ht : t.WellFormed) :
    2 * ms'.length ≤ 2 * ms.length + t.classCount := by
  induction h with
  | drop | reject => exact Nat.le_add_right _ _
  | keep _ kept => exact absurd (hkeep.symm.trans kept) Bool.false_ne_true
  | @accept t _ reach _ _ =>
      rw [List.length_append, List.length_singleton]
      cases t with
      | leaf n c => exact absurd (averagePairwise_leaf rule.weights n c ▸ reach) hpos
      | node n l r c k =>
          have htwo := two_le_classCount_node ht.2.2.1 n c k
          omega
  | divide _ _ _ _ ihl ihr =>
      obtain ⟨-, -, hd, hl, hr⟩ := ht
      have hleft := ihl hl
      have hright := ihr hr
      rw [classCount_node hd]
      omega

/-- Where the root reaches the threshold, the cut of a whole tree makes one module at most, and
of a leaf none at the limit. -/
theorem Cuts.length_le_of_reach (h : Cuts rule t [] ms')
    (hreach : rule.threshold ≤ averagePairwise t.classes rule.weights) :
    ms'.length ≤ 1 ∧ (t.isLeaf = true → (ms'.length : Int) ≤ max rule.maxModules 0) := by
  cases h with
  | drop => simp
  | keep room _ => exact ⟨le_rfl, fun _ => le_max_of_le_left room⟩
  | accept _ _ room => exact ⟨le_rfl, fun hleaf => le_max_of_le_left (room (.inl hleaf))⟩
  | reject low _ => exact absurd hreach low
  | divide _ low _ _ => exact absurd hreach low

/-- A cut with singletons kept makes at most as many modules as its limit. -/
theorem length_cut_le_limit {rule : CutRule α} {limit : ℕ} (hkeep : rule.keepSingletons = true)
    (hlimit : rule.maxModules = limit) (t : Dendrogram α) {s : CutState α}
    (hs : Sound rule.weights s.averages) (hnone : s.modules = []) :
    (rule.cut t s).modules.length ≤ limit := by
  rw [(cut_of_keepSingletons hkeep hlimit t s hs).1, hnone, List.nil_append, List.length_map,
    List.length_take, List.length_nil]
  exact Nat.min_le_left _ _

/-- **A cut of a tree makes at most as many modules as its limit or half of the classes**,
whichever is more, when the average of the tree is not negative and singletons are not kept. -/
theorem length_cut_le_max [PreorderedScalar α] {rule : CutRule α} {limit : ℕ}
    (hkeep : rule.keepSingletons = false) (hlimit : rule.maxModules = limit) {t : Dendrogram α}
    (haverage : 0 ≤ averagePairwise t.classes rule.weights) (ht : t.WellFormed) {s : CutState α}
    (hs : Sound rule.weights s.averages) (hnone : s.modules = []) :
    (rule.cut t s).modules.length ≤ max limit (t.classCount / 2) := by
  obtain ⟨hcuts, -⟩ := cuts_cut rule t s hs
  by_cases hpos : rule.threshold ≤ 0
  · have hreach := PreorderedScalar.le_trans hpos haverage
    obtain ⟨hone, hleaf⟩ := (hnone ▸ hcuts).length_le_of_reach hreach
    cases t with
    | leaf n c =>
        have hroom := hleaf rfl
        omega
    | node n l r c k =>
        have htwo := two_le_classCount_node ht.2.2.1 n c k
        omega
  · have hhalf := hcuts.two_mul_length_le hkeep hpos ht
    rw [hnone, List.length_nil] at hhalf
    omega

end CutRule

/-- A tree whose average is not negative has at most as many modules as half of the total
or half of its classes, whichever is more, and at most half of the total when singletons
are kept. -/
theorem length_identifyModules_le_max [PreorderedScalar α] {t : Dendrogram α} (ht : t.WellFormed)
    {weights : CouplingWeights α} (haverage : 0 ≤ averagePairwise t.classes weights)
    (threshold : α) (total : ℕ) (keep : Bool) (naming : String) :
    let found := identifyModules (some t) weights threshold (some (total : Int)) keep naming
    found.length ≤ max (total / 2) (t.classCount / 2) ∧
      (keep = true → found.length ≤ total / 2) := by
  intro found
  have hcut : found = _ := identifyModules_eq_cut weights threshold total keep naming t
  cases keep with
  | true =>
      have hfew : found.length ≤ total / 2 := by
        rw [hcut]
        exact CutRule.length_cut_le_limit rfl rfl t (CutRule.sound_nil weights) rfl
      exact ⟨le_max_of_le_left hfew, fun _ => hfew⟩
  | false =>
      refine ⟨?_, fun h => by cases h⟩
      rw [hcut]
      exact CutRule.length_cut_le_max rfl rfl haverage ht (CutRule.sound_nil weights) rfl

/-- **How many modules a tree has.** For every table of weights that are not negative, every
threshold and every total, there are at most as many modules as half of the total or half of
the classes of the tree, whichever is more. So the limit of the cut holds when the total is not
smaller than the tree, up to an odd class, and for every total when singletons are kept. -/
theorem length_identifyModules_le [OrderedScalar α] {root : Option (Dendrogram α)}
    (hroot : ∀ t, root = some t → Built t) {weights : CouplingWeights α}
    (hw : ∀ w ∈ weights.values, 0 ≤ w) (threshold : α) (total : ℕ) (keep : Bool)
    (naming : String) :
    let found := identifyModules root weights threshold (some (total : Int)) keep naming
    let check := (Cutter.ofTree root total threshold weights keep naming).verify found
    found.length ≤ max (total / 2) (classTotal root / 2) ∧
    (keep = true ∨ classTotal root / 2 ≤ total / 2 →
      found.length ≤ total / 2 ∧ check.withinBudget = true) := by
  intro found check
  have hlength : found.length ≤ max (total / 2) (classTotal root / 2) ∧
      (keep = true → found.length ≤ total / 2) := by
    cases root with
    | none => exact ⟨Nat.zero_le _, fun _ => Nat.zero_le _⟩
    | some t =>
        exact length_identifyModules_le_max (hroot t rfl).wellFormed
          (averagePairwise_nonneg hw t.classes) threshold total keep naming
  have hbudget : keep = true ∨ classTotal root / 2 ≤ total / 2 → found.length ≤ total / 2 := by
    rintro (hkeep | htotal)
    · exact hlength.2 hkeep
    · exact hlength.1.trans (max_le le_rfl htotal)
  exact ⟨hlength.1, fun hcase =>
    ⟨hbudget hcase, (withinBudget_verify_iff ..).mpr (hbudget hcase)⟩⟩

/-- Two cohesive pairs are as many modules as a total of five allows. Under an undefined
threshold nothing is cohesive, and of the four singletons a total of three keeps one. -/
theorem length_identifyModules_le_of_two_pairs :
    let weights : CouplingWeights Extended :=
      .ofList [(("a", "b"), .finite (3 / 4)), (("c", "d"), .finite (1 / 2))]
    let ab : Dendrogram Extended := node "cluster-001" (leaf "a" 0) (leaf "b" 0) (.finite (3 / 4)) 1
    let cd : Dendrogram Extended := node "cluster-002" (leaf "c" 0) (leaf "d" 0) (.finite (1 / 2)) 2
    let t := node "cluster-003" ab cd 0 3
    Built t ∧ (∀ w ∈ weights.values, 0 ≤ w) ∧ classTotal (some t) / 2 ≤ 5 / 2 ∧
      (identifyModules (some t) weights (.finite (1 / 2)) (some 5) false "module").length = 2 ∧
      (identifyModules (some t) weights (.finite (1 / 2)) (some 5) false "module").length ≤ 5 / 2 ∧
      (identifyModules (some t) weights .undefined (some 3) true "module").length ≤ 3 / 2 := by
  intro weights ab cd t
  have ht : Built t := by
    have hflat : ((0 : Extended) == 0) = true := by decide
    refine WellFormed.built ?_
    simp [t, ab, cd, WellFormed, List.Disjoint, mem_classes_node, hflat]
  have hw : ∀ w ∈ weights.values, 0 ≤ w := by decide +kernel
  have hroot : ∀ u, some t = some u → Built u := by
    rintro u ⟨⟩
    exact ht
  have htotal : classTotal (some t) / 2 ≤ 5 / 2 := by
    have hcount : classTotal (some t) = 4 := by
      subst t ab cd
      cbv
    omega
  have htwo : (identifyModules (some t) weights (.finite (1 / 2)) (some 5) false
      "module").length = 2 := by
    subst t ab cd weights
    cbv
  exact ⟨ht, hw, htotal, htwo,
    ((length_identifyModules_le hroot hw (.finite (1 / 2)) 5 false "module").2 (.inr htotal)).1,
    ((length_identifyModules_le hroot hw .undefined 3 true "module").2 (.inl rfl)).1⟩

/-- **A total that is smaller than the tree is exceeded**: under a total of one no module is
allowed, and the pair of `a` and `b` is offered at the limit and becomes one. -/
theorem length_identifyModules_gt_of_small_total :
    let counts : OrderedMap ClassPair Int := .ofList [(("A", "B"), 1)]
    let weights : CouplingWeights ℚ := .ofList [(("A", "B"), 1)]
    let t : Dendrogram ℚ := node "cluster-001" (leaf "A" 0) (leaf "B" 0) 1 1
    let found := identifyModules (some t) weights (1 / 2) (some 1) false "module"
    buildDendrogram counts weights = .ok (some t) ∧ Built t ∧ (∀ w ∈ weights.values, 0 ≤ w) ∧
      found.map Module.classes = [["A", "B"]] ∧ ¬ found.length ≤ 1 / 2 ∧
      ((Cutter.ofTree (some t) 1 (1 / 2) weights false "module").verify found).withinBudget =
        false := by
  intro counts weights t found
  have hroot : buildDendrogram counts weights = .ok (some t) := by
    subst counts weights t
    cbv
  have ht : Built t := by
    refine WellFormed.built ?_
    simp [t, WellFormed, List.Disjoint]
  have hfound : found.map Module.classes = [["A", "B"]] := by
    subst found t weights
    cbv
  have hone : found.length = 1 := by
    rw [← List.length_map Module.classes, hfound]
    rfl
  refine ⟨hroot, ht, by decide +kernel, hfound, by omega, ?_⟩
  simp [Cutter.verify, Cutter.ofTree, hone]

end Linkage
