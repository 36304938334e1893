import Mathlib
import Linkage.Proofs.Dendrogram.Topmost
import Linkage.Proofs.Module.Average

/-!
# The cut finds the topmost cohesive nodes

An inner node is cohesive when the average between its classes reaches the threshold. When no
weight is negative and the limit is half the classes of the tree, a cut makes modules of the
topmost cohesive nodes and of nothing else. Of the weights it matters only that the average of
the whole tree is not negative, and of the scalars that their order is transitive.

The limit is never met at an inner node. `CutRule.cutWith` is the cut with its action there as
a parameter, and its result does not depend on that action. Every module takes two classes at
least, so below the limit there is room for one module in every subtree that is still to be
cut.

## Main results

* `CutRule.cutWith_offerCapped`: with the action of the cut itself, `cutWith` is the cut.
* `CutRule.cutWith_of_pos`: the cut of a subtree under a positive threshold.
* `Cutter.modules_eq_topmost`: the modules of a cutter.
* `identifyModules_eq_topmost`: the modules of a tree are its topmost cohesive nodes.
-/

namespace Linkage

open Dendrogram

variable {α : Type} [Scalar α]

/-- An inner node is **cohesive** when the average between its classes reaches a threshold. -/
def cohesive (weights : CouplingWeights α) (threshold : α) (v : Dendrogram α) : Bool :=
  !v.isLeaf && decide (threshold ≤ averagePairwise v.classes weights)

/-- A leaf is not cohesive. -/
@[simp] theorem cohesive_leaf (weights : CouplingWeights α) (threshold : α) (n : String) (c : α) :
    cohesive weights threshold (leaf n c) = false := rfl

/-- An inner node is cohesive when its average coupling reaches the threshold. -/
@[simp] theorem cohesive_node_iff {weights : CouplingWeights α} {threshold : α} {n : String}
    {l r : Dendrogram α} {c : α} {k : Nat} :
    cohesive weights threshold (node n l r c k) = true ↔
      threshold ≤ averagePairwise (node n l r c k).classes weights := by
  simp [cohesive, isLeaf]

/-- The module of a node, with the average between its classes. -/
def moduleOf (weights : CouplingWeights α) (naming : String) (v : Dendrogram α) : Module α :=
  Module.ofNode naming v (averagePairwise v.classes weights)

/-- A leaf becomes the module of a node whose average is zero. -/
theorem moduleOf_leaf (weights : CouplingWeights α) (naming n : String) (c : α) :
    moduleOf weights naming (leaf n c) = Module.ofNode naming (leaf n c) 0 := by
  rw [moduleOf, averagePairwise_leaf]

namespace CutRule

/-- An offer makes a module of a node whose average reaches the threshold, and of no other. -/
theorem offer_of_sound {rule : CutRule α} {s : CutState α} (h : Sound rule.weights s.averages)
    (v : Dendrogram α) :
    (rule.offer v s).modules = s.modules ++
        (if rule.threshold ≤ averagePairwise v.classes rule.weights then
          [moduleOf rule.weights rule.naming v] else []) ∧
      Sound rule.weights (rule.offer v s).averages := by
  obtain ⟨haverage, hsound⟩ := averageOf_of_sound h v
  unfold offer
  simp only [haverage]
  split
  · exact ⟨rfl, hsound⟩
  · exact ⟨(List.append_nil _).symm, hsound⟩

/-! ### The cut below the limit -/

/-- The **cut with its action at the limit as a parameter**: what is done with an inner node
that is reached when no more modules are allowed. -/
def cutWith (rule : CutRule α) (capped : Dendrogram α → CutState α → CutState α) :
    Dendrogram α → CutState α → CutState α
  | .leaf n c, s => rule.cut (.leaf n c) s
  | .node n l r c k, s =>
    if rule.atLimit s then capped (.node n l r c k) s
    else
      let (average, known) := averageOf rule.weights s.averages (.node n l r c k)
      let s := { s with averages := known }
      if rule.threshold ≤ average then rule.offer (.node n l r c k) s
      else cutWith rule capped r
        (cutWith rule capped l (s.report (.splitting n average rule.threshold)))

/-- What the cut does with an inner node at the limit: it is reported, and offered unless
singletons are kept. -/
def offerCapped (rule : CutRule α) (v : Dendrogram α) (s : CutState α) : CutState α :=
  let s := s.report (.limitReached rule.maxModules v.name)
  if rule.keepSingletons then s else rule.offer v s

/-- With this action it is the cut itself. -/
theorem cutWith_offerCapped (rule : CutRule α) (t : Dendrogram α) (s : CutState α) :
    rule.cutWith rule.offerCapped t s = rule.cut t s := by
  induction t generalizing s with
  | leaf n c => rfl
  | node n l r c k ihl ihr =>
      simp only [cutWith, cut, offerCapped, name, ihl, ihr]

omit [Scalar α] in
/-- While two classes are left there is room for a further module. -/
theorem atLimit_eq_false {rule : CutRule α} {total : Nat}
    (hlimit : rule.maxModules = Int.fdiv total 2) {s : CutState α}
    (h : 2 * s.modules.length + 2 ≤ total) : rule.atLimit s = false := by
  rw [atLimit, decide_eq_false_iff_not, hlimit, Int.fdiv_eq_ediv_of_nonneg _ (by omega)]
  omega

/-- Below the limit a cohesive node becomes a module as a whole. -/
theorem cutWith_of_cohesive {rule : CutRule α} {s : CutState α}
    (hs : Sound rule.weights s.averages) (hbelow : rule.atLimit s = false)
    (capped : Dendrogram α → CutState α → CutState α) {n : String} {l r : Dendrogram α} {c : α}
    {k : Nat} (h : rule.threshold ≤ averagePairwise (node n l r c k).classes rule.weights) :
    (rule.cutWith capped (node n l r c k) s).modules =
        s.modules ++ [moduleOf rule.weights rule.naming (node n l r c k)] ∧
      Sound rule.weights (rule.cutWith capped (node n l r c k) s).averages ∧
      rule.cutWith capped (node n l r c k) s = rule.cut (node n l r c k) s := by
  obtain ⟨haverage, hknown⟩ := averageOf_of_sound hs (node n l r c k)
  obtain ⟨hoffer, hsound⟩ := offer_of_sound
    (s := { s with averages := (averageOf rule.weights s.averages (node n l r c k)).2 })
    hknown (node n l r c k)
  rw [if_pos h] at hoffer
  simp only [cutWith, cut, hbelow, Bool.false_eq_true, if_false, haverage, if_pos h]
  exact ⟨hoffer, hsound, trivial⟩

/-- **The cut of a subtree under a positive threshold** adds the modules of the topmost
cohesive nodes, whatever it would do at the limit. Induction on the subtree: the modules made
so far and the classes of the subtree together keep below the limit, and a subtree uses up no
more classes than it has. -/
theorem cutWith_of_pos {rule : CutRule α} {total : Nat} (hkeep : rule.keepSingletons = false)
    (hlimit : rule.maxModules = Int.fdiv total 2) (hpos : ¬ rule.threshold ≤ 0)
    (capped : Dendrogram α → CutState α → CutState α) {t : Dendrogram α} (ht : t.WellFormed) :
    ∀ s : CutState α, Sound rule.weights s.averages →
      2 * s.modules.length + t.classCount ≤ total →
      (rule.cutWith capped t s).modules = s.modules ++
          (topmost (cohesive rule.weights rule.threshold) t).map
            (moduleOf rule.weights rule.naming) ∧
        Sound rule.weights (rule.cutWith capped t s).averages ∧
        rule.cutWith capped t s = rule.cut t s := by
  induction t with
  | leaf n c =>
      intro s hs _
      have htop : topmost (cohesive rule.weights rule.threshold) (leaf n c) = [] := by
        simp [topmost_leaf]
      obtain ⟨hoffer, hsound⟩ := offer_of_sound hs (leaf n c)
      rw [averagePairwise_leaf, if_neg hpos] at hoffer
      rw [htop]
      refine ⟨?_, ?_, rfl⟩
      · simp only [cutWith, cut, hkeep]
        split
        · simp [CutState.report]
        · simpa using hoffer
      · simp only [cutWith, cut, hkeep]
        split
        · exact hs
        · simpa using hsound
  | node n l r c k ihl ihr =>
      intro s hs hroom
      obtain ⟨-, -, hd, hl, hr⟩ := ht
      have htwo := two_le_classCount_node hd n c k
      have hcount := classCount_node hd n c k
      have hbelow : rule.atLimit s = false := atLimit_eq_false hlimit (by omega)
      rw [topmost_node]
      by_cases hreach : rule.threshold ≤ averagePairwise (node n l r c k).classes rule.weights
      · rw [if_pos (cohesive_node_iff.mpr hreach)]
        exact cutWith_of_cohesive hs hbelow capped hreach
      · have hleft := two_mul_length_topmost_le (cohesive_leaf rule.weights rule.threshold) hl
        obtain ⟨haverage, hknown⟩ := averageOf_of_sound hs (node n l r c k)
        -- The state in which the left child is cut.
        obtain ⟨hl₁, hl₂, hl₃⟩ := ihl hl
          (({ s with averages := (averageOf rule.weights s.averages (node n l r c k)).2 } :
            CutState α).report (.splitting n _ rule.threshold))
          hknown (by simp only [CutState.report]; omega)
        obtain ⟨hr₁, hr₂, hr₃⟩ := ihr hr _ hl₂
          (by rw [hl₁, List.length_append, List.length_map]; simp only [CutState.report]; omega)
        simp only [cutWith, cut, hbelow, Bool.false_eq_true, if_false, haverage, if_neg hreach,
          if_neg (mt cohesive_node_iff.mp hreach)]
        refine ⟨?_, hr₂, ?_⟩
        · rw [hr₁, hl₁, List.map_append, List.append_assoc]
          rfl
        · rw [hr₃, hl₃]

/-- The cut of a whole tree, whose average is not negative, from a state without modules.
Under a threshold that is not positive the root is cohesive, or it is a leaf and the limit
is zero. -/
theorem cutWith_root [PreorderedScalar α] {rule : CutRule α} {t : Dendrogram α}
    (hkeep : rule.keepSingletons = false) (hlimit : rule.maxModules = Int.fdiv t.classCount 2)
    (haverage : 0 ≤ averagePairwise t.classes rule.weights)
    (capped : Dendrogram α → CutState α → CutState α) (ht : t.WellFormed) {s : CutState α}
    (hs : Sound rule.weights s.averages) (hnone : s.modules = []) :
    (rule.cutWith capped t s).modules =
        (topmost (cohesive rule.weights rule.threshold) t).map
          (moduleOf rule.weights rule.naming) ∧
      rule.cutWith capped t s = rule.cut t s := by
  by_cases hpos : rule.threshold ≤ 0
  · cases t with
    | leaf n c =>
        have hfull : rule.atLimit s = true := by
          simp [atLimit, hlimit, hnone, classCount, classes]
        have htop : topmost (cohesive rule.weights rule.threshold) (leaf n c) = [] := by
          simp [topmost_leaf]
        refine ⟨?_, rfl⟩
        simp [cutWith, cut, hfull, htop, CutState.report, hnone]
    | node n l r c k =>
        obtain ⟨-, -, hd, -, -⟩ := ht
        have htwo := two_le_classCount_node hd n c k
        have hbelow : rule.atLimit s = false :=
          atLimit_eq_false hlimit (by simpa [hnone] using htwo)
        have hreach : rule.threshold ≤ averagePairwise (node n l r c k).classes rule.weights :=
          PreorderedScalar.le_trans hpos haverage
        obtain ⟨hmodules, -, hcut⟩ := cutWith_of_cohesive hs hbelow capped hreach
        refine ⟨?_, hcut⟩
        rw [hmodules, topmost_node, if_pos (cohesive_node_iff.mpr hreach), hnone]
        rfl
  · obtain ⟨hmodules, -, hcut⟩ :=
      cutWith_of_pos hkeep hlimit hpos capped ht s hs (by simp [hnone])
    exact ⟨by rw [hmodules, hnone, List.nil_append], hcut⟩

end CutRule

section Cutter

variable [PreorderedScalar α] {t : Dendrogram α} (ht : t.WellFormed) {weights : CouplingWeights α}
  (haverage : 0 ≤ averagePairwise t.classes weights)
include ht haverage

/-- The modules of a cutter are the topmost cohesive nodes of its tree, when the average of the
tree is not negative, singletons are not kept and the total is the number of classes. -/
theorem Cutter.modules_eq_topmost (threshold : α) (naming : String) :
    (ofTree (some t) t.classCount threshold weights false naming).identify.1.modules =
      (topmost (cohesive weights threshold) t).map (moduleOf weights naming) := by
  let cutter := ofTree (some t) t.classCount threshold weights false naming
  let start : CutState α := ⟨[], [], [.cutting cutter.rule.maxModules threshold]⟩
  have hcut : (cutter.rule.cutWith cutter.rule.offerCapped t start).modules =
      (topmost (cohesive weights threshold) t).map (moduleOf weights naming) :=
    (CutRule.cutWith_root rfl rfl haverage _ ht (CutRule.sound_nil weights) rfl).1
  rw [CutRule.cutWith_offerCapped] at hcut
  exact hcut

/-- So every module has two classes at least. -/
theorem Cutter.two_le_classCount_of_mem {threshold : α} {naming : String} {m : Module α}
    (hm : m ∈ (ofTree (some t) t.classCount threshold weights false naming).identify.1.modules) :
    2 ≤ m.classCount := by
  rw [modules_eq_topmost ht haverage] at hm
  obtain ⟨v, hv, rfl⟩ := List.mem_map.mp hm
  have hcohesive := of_mem_topmost hv
  rw [cohesive, Bool.and_eq_true, Bool.not_eq_true'] at hcohesive
  exact (ht.of_mem_nodes (mem_nodes_of_mem_topmost hv)).two_le_classCount_iff.mpr hcohesive.1

end Cutter

/-- The topmost cohesive nodes of a tree pass the check: each of them has two classes, and its
average reaches the threshold. -/
theorem Cutter.passed_verify_topmost {t : Dendrogram α} (ht : t.WellFormed)
    (weights : CouplingWeights α) (threshold : α) (naming : String) :
    ((ofTree (some t) t.classCount threshold weights false naming).verify
      ((topmost (cohesive weights threshold) t).map (moduleOf weights naming))).passed = true := by
  have hbudget := two_mul_length_topmost_le (cohesive_leaf weights threshold) ht
  have hreach : ∀ m ∈ (topmost (cohesive weights threshold) t).map (moduleOf weights naming),
      threshold ≤ m.averageCoupling := by
    intro m hm
    obtain ⟨v, hv, rfl⟩ := List.mem_map.mp hm
    have hv' := of_mem_topmost hv
    rw [cohesive, Bool.and_eq_true, decide_eq_true_eq] at hv'
    exact hv'.2
  have hlimit : (ofTree (some t) t.classCount threshold weights false naming).rule.maxModules =
      Int.fdiv t.classCount 2 := rfl
  rw [Int.fdiv_eq_ediv_of_nonneg _ (by omega)] at hlimit
  simp only [verify, ConstraintReport.passed, Bool.and_eq_true, decide_eq_true_eq, List.all_eq_true]
  refine ⟨?_, hreach⟩
  rw [hlimit, List.length_map]
  omega

/-- **The modules of a tree are its topmost cohesive nodes**, left before right, for every
threshold, when no weight is negative, singletons are not kept and the total is the number of
classes of the tree, as it is by default. What the cut would do with an inner node at the limit
does not matter, and the modules satisfy both constraints. -/
theorem identifyModules_eq_topmost [OrderedScalar α] {t : Dendrogram α} (ht : Built t)
    {weights : CouplingWeights α} (hw : ∀ w ∈ weights.values, 0 ≤ w) (threshold : α)
    (naming : String) :
    let found := (topmost (cohesive weights threshold) t).map (moduleOf weights naming)
    let cutter := Cutter.ofTree (some t) t.classCount threshold weights false naming
    (∀ total, total = none ∨ total = some (t.classCount : Int) →
      identifyModules (some t) weights threshold total false naming = found) ∧
    (∀ capped events, cutter.rule.cutWith capped t ⟨[], cutter.averages, events⟩ =
      cutter.rule.cut t ⟨[], cutter.averages, events⟩) ∧
    (cutter.verify found).passed = true := by
  intro found cutter
  have hwf := ht.wellFormed
  have hroot : ∀ capped events,
      (cutter.rule.cutWith capped t ⟨[], cutter.averages, events⟩).modules = found ∧
        cutter.rule.cutWith capped t ⟨[], cutter.averages, events⟩ =
          cutter.rule.cut t ⟨[], cutter.averages, events⟩ := fun capped events =>
    CutRule.cutWith_root rfl rfl (averagePairwise_nonneg hw _) capped hwf
      (fun e he => absurd he List.not_mem_nil) rfl
  refine ⟨fun total htotal => ?_, fun capped events => (hroot capped events).2,
    Cutter.passed_verify_topmost hwf weights threshold naming⟩
  have hdefault : total.getD (classTotal (some t)) = (t.classCount : Int) := by
    rcases htotal with rfl | rfl <;> rfl
  have hcut := (hroot cutter.rule.offerCapped
    [.cutting cutter.rule.maxModules cutter.rule.threshold]).1
  rw [CutRule.cutWith_offerCapped] at hcut
  rw [identifyModules, hdefault]
  exact hcut

/-- Two cohesive pairs under a root that is not cohesive: a threshold of one half finds the
pairs, as many modules as are allowed, and a threshold below all numbers finds the root. -/
theorem identifyModules_eq_topmost_of_two_pairs :
    let weights : CouplingWeights Extended :=
      .ofList [(("a", "b"), .finite (3 / 4)), (("c", "d"), .finite (1 / 2))]
    let ab : Dendrogram Extended := node "cluster-001" (leaf "a" 0) (leaf "b" 0) (.finite (3 / 4)) 1
    let cd : Dendrogram Extended := node "cluster-002" (leaf "c" 0) (leaf "d" 0) (.finite (1 / 2)) 2
    let t := node "cluster-003" ab cd 0 3
    Built t ∧ (∀ w ∈ weights.values, 0 ≤ w) ∧
      (identifyModules (some t) weights (.finite (1 / 2)) none false "module").map Module.nodeId =
        ["cluster-001", "cluster-002"] ∧
      (identifyModules (some t) weights (.unbounded true) none false "module").map Module.nodeId =
        ["cluster-003"] := by
  intro weights ab cd t
  have ht : Built t := by
    have hflat : ((0 : Extended) == 0) = true := by decide
    refine WellFormed.built ?_
    simp [t, ab, cd, WellFormed, List.Disjoint, mem_classes_node, hflat]
  have hw : ∀ w ∈ weights.values, 0 ≤ w := by decide +kernel
  refine ⟨ht, hw, ?_, ?_⟩
  · rw [(identifyModules_eq_topmost ht hw _ _).1 none (.inl rfl)]
    cbv
  · rw [(identifyModules_eq_topmost ht hw _ _).1 none (.inl rfl)]
    cbv

end Linkage
