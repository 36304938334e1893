import Mathlib
import Linkage.Pipeline
import Linkage.Proofs.Clustering.History
import Linkage.Proofs.Clustering.Scaling
import Linkage.Proofs.Coupling.Normalised

/-!
# Cuts in another unit

A cut compares averages with a threshold. When the weights and the threshold are measured in
another unit, averages change with them and every comparison has the outcome that it had, so a
node is divided, accepted or rejected as before. The couplings of the tree are not read at all.

Normalising a table divides its counts by their total, which is such a change of unit: the
dendrogram of a call graph joins the same classes at the same levels whether calls or shares of
calls are clustered.

## Main results

* `Rescaling.averagePairwise_rescale`: an average of rescaled weights.
* `Rescaling.cut_rescale`: a cut under rescaled weights and a rescaled threshold.
* `Rescaling.identifyModules_rescale`: the modules of such a cut.
* `unit_independent`: trees and modules do not depend on the unit of the weights.
-/

namespace Linkage

/-! ### Cuts in progress -/

section States

variable {α : Type} (f k : α → α)

/-- The averages that are known, rescaled. -/
def Averages.rescale (known : Averages α) : Averages α := known.map fun e => (e.1, f e.2)

/-- The cut in progress with every scalar rescaled. -/
def CutState.rescale (s : CutState α) : CutState α :=
  ⟨s.modules.map (Module.rescale f), s.averages.rescale f, s.events.map (Event.rescale f)⟩

/-- What is remembered is rescaled with the rest of a state. -/
theorem CutState.averages_rescale (s : CutState α) (known : Averages α) :
    { s.rescale f with averages := known.rescale f } =
      ({ s with averages := known } : CutState α).rescale f := rfl

/-- A rescaled event is reported to a rescaled state. -/
theorem CutState.report_rescale (s : CutState α) (e : Event α) :
    (s.rescale f).report (e.rescale f) = (s.report e).rescale f := by
  simp only [report, rescale, List.map_append, List.map_cons, List.map_nil]

/-- A rescaled module is added to a rescaled state. -/
theorem CutState.add_rescale (s : CutState α) (m : Module α) :
    (s.rescale f).add (m.rescale f) = (s.add m).rescale f := by
  simp only [add, rescale, List.map_append, List.map_cons, List.map_nil]

/-- The module of a node does not depend on the couplings of the tree. -/
theorem Module.ofNode_rescale (naming : String) (v : Dendrogram α) (x : α) :
    ofNode naming (v.rescale k) (f x) = (ofNode naming v x).rescale f := by
  simp only [ofNode, rescale, Dendrogram.name_rescale, Dendrogram.classes_rescale]

end States

variable {α : Type} [Scalar α]

/-- The rule with its weights and its threshold rescaled. -/
def CutRule.rescale (f : α → α) (rule : CutRule α) : CutRule α :=
  { rule with threshold := f rule.threshold, weights := rule.weights.mapValues f }

namespace Rescaling

variable {f : α → α} (hf : Rescaling f) (k : α → α)
include hf

/-! ### Averages -/

/-- The coupling of two classes is rescaled with the table. -/
theorem couplingBetween_rescale (weights : CouplingWeights α) (a b : String) :
    couplingBetween (weights.mapValues f) a b = f (couplingBetween weights a b) := by
  simp only [couplingBetween, OrderedMap.getD, OrderedMap.get?_mapValues]
  cases weights.get? (a, b) with
  | some x => rfl
  | none =>
      cases weights.get? (b, a) with
      | some x => rfl
      | none => exact hf.map_zero.symm

/-- A sum is rescaled with its terms. -/
theorem foldl_add_rescale (xs : List α) (start : α) :
    (xs.map f).foldl (· + ·) (f start) = f (xs.foldl (· + ·) start) := by
  induction xs generalizing start with
  | nil => rfl
  | cons x rest ih => rw [List.map_cons, List.foldl_cons, ← hf.map_add, ih, List.foldl_cons]

/-- **An average of rescaled weights** is the average of the weights, rescaled. -/
theorem averagePairwise_rescale (classes : List String) (weights : CouplingWeights α) :
    averagePairwise classes (weights.mapValues f) = f (averagePairwise classes weights) := by
  have hempty : (weights.mapValues f).isEmpty = weights.isEmpty := List.isEmpty_map
  have hsum := hf.foldl_add_rescale
    ((orderedPairs (Text.members classes)).map fun p => couplingBetween weights p.1 p.2) 0
  rw [hf.map_zero, List.map_map] at hsum
  simp only [averagePairwise, hempty, hf.couplingBetween_rescale]
  split
  · exact hf.map_zero.symm
  · rw [hf.map_div, ← hsum]
    rfl

/-! ### Cuts -/

/-- An average that is remembered or computed is rescaled, and so is what is remembered. -/
theorem averageOf_rescale (rule : CutRule α) (s : CutState α) (v : Dendrogram α) :
    CutRule.averageOf (rule.rescale f).weights (s.rescale f).averages (v.rescale k) =
      (CutRule.averageOf rule.weights s.averages v).map f (Averages.rescale f) := by
  have hlookup (known : Averages α) :
      (known.rescale f).lookup v.classes = (known.lookup v.classes).map f := by
    induction known with
    | nil => rfl
    | cons e rest ih =>
        rw [Averages.rescale, List.map_cons, List.lookup_cons, List.lookup_cons]
        split
        · rfl
        · exact ih
  simp only [CutRule.averageOf, CutRule.rescale, CutState.rescale, Dendrogram.classes_rescale,
    hlookup, hf.averagePairwise_rescale]
  cases s.averages.lookup v.classes with
  | some x => rfl
  | none => simp [Averages.rescale]

/-- A rescaled average reaches a rescaled threshold when the average reaches the threshold. -/
theorem threshold_le_rescale (rule : CutRule α) (x : α) :
    (rule.rescale f).threshold ≤ f x ↔ rule.threshold ≤ x := hf.le_iff

/-- **An offered node** is treated alike when everything is rescaled. -/
theorem offer_rescale (rule : CutRule α) (v : Dendrogram α) (s : CutState α) :
    (rule.rescale f).offer (v.rescale k) (s.rescale f) = (rule.offer v s).rescale f := by
  have hnaming : (rule.rescale f).naming = rule.naming := rfl
  simp only [CutRule.offer, hf.averageOf_rescale, Prod.map, CutState.averages_rescale,
    hf.threshold_le_rescale, hnaming, Module.ofNode_rescale, CutState.add_rescale,
    Dendrogram.name_rescale]
  split
  · exact CutState.report_rescale f _ (.accepted _)
  · exact CutState.report_rescale f _ (.rejected v.name _ rule.threshold)

/-- **A cut is rescaled**, whatever the couplings of the tree are. Induction on the tree. -/
theorem cut_rescale (rule : CutRule α) (t : Dendrogram α) (s : CutState α) :
    (rule.rescale f).cut (t.rescale k) (s.rescale f) = (rule.cut t s).rescale f := by
  have hlimit (s : CutState α) : (rule.rescale f).atLimit (s.rescale f) = rule.atLimit s := by
    simp only [CutRule.atLimit, CutRule.rescale, CutState.rescale, List.length_map]
  have hkeep : (rule.rescale f).keepSingletons = rule.keepSingletons := rfl
  induction t generalizing s with
  | leaf n c =>
      have hsingle := Module.ofNode_rescale f k rule.naming (.leaf n c) 0
      rw [hf.map_zero] at hsingle
      have hadd := CutState.add_rescale f s (Module.ofNode rule.naming (.leaf n c) 0)
      rw [Dendrogram.rescale, CutRule.cut, hlimit, hkeep, CutRule.cut]
      split
      · exact CutState.report_rescale f s (.limitReached rule.maxModules n)
      · split
        · rw [← CutState.report_rescale, ← hadd, ← hsingle]
          rfl
        · exact hf.offer_rescale k rule (.leaf n c) s
  | node n l r c j ihl ihr =>
      have hoffer (s : CutState α) := hf.offer_rescale k rule (.node n l r c j) s
      have haverage := hf.averageOf_rescale k rule s (.node n l r c j)
      have hfull := CutState.report_rescale f s (.limitReached rule.maxModules n)
      simp only [Dendrogram.rescale] at hoffer haverage ⊢
      rw [CutRule.cut, hlimit, hkeep, CutRule.cut]
      split
      · split
        · exact hfull
        · rw [← hoffer, ← hfull]
          rfl
      · simp only [haverage, Prod.map, CutState.averages_rescale, hf.threshold_le_rescale]
        split
        · exact hoffer _
        · rw [← ihr, ← ihl, ← CutState.report_rescale]
          rfl

/-- **The modules of a cut** have the same names and classes in the same order, with their
averages rescaled. -/
theorem identifyModules_rescale (root : Option (Dendrogram α)) (weights : CouplingWeights α)
    (threshold : α) (total : Option Int) (keepSingletons : Bool) (naming : String) :
    identifyModules (root.map (Dendrogram.rescale k)) (weights.mapValues f) (f threshold) total
        keepSingletons naming =
      (identifyModules root weights threshold total keepSingletons naming).map
        (Module.rescale f) := by
  cases root with
  | none => rfl
  | some t =>
      let rule : CutRule α :=
        ⟨Int.fdiv (total.getD t.classCount) 2, threshold, weights, keepSingletons, naming⟩
      have hcut := hf.cut_rescale k rule t ⟨[], [], [.cutting rule.maxModules threshold]⟩
      have htotal : classTotal (some (t.rescale k)) = classTotal (some t) := by
        simp only [classTotal, Dendrogram.classCount, Dendrogram.classes_rescale]
      simp only [identifyModules, Option.map_some, htotal]
      exact congrArg CutState.modules hcut

end Rescaling

/-! ### Exact weights -/

/-- Counts are weights in units of a positive total. -/
theorem mapValues_normalise {counts : CouplingCounts} {total : Int} {weights : CouplingWeights ℚ}
    (htotal : 0 < total) (h : normalise? counts total = some weights) :
    counts.mapValues (fun n : Int => (n : ℚ)) = weights.mapValues ((total : ℚ) * ·) := by
  have hne : (total : ℚ) ≠ 0 := Int.cast_ne_zero.mpr htotal.ne'
  obtain rfl := Option.some.inj ((normalise?_eq_some counts htotal).symm.trans h)
  simp only [OrderedMap.mapValues, List.map_map, Function.comp_def, mul_div_cancel₀ _ hne]

/-- **Counting calls or sharing them out gives trees of one shape**: the dendrogram of the
counts of a call graph is that of its weights, with couplings in calls in place of shares. -/
theorem buildDendrogram_counts {g : CallGraph} {s : CouplingSummary ℚ}
    (hs : CouplingSummary.ofGraph? g = some s) :
    buildDendrogram s.counts (s.counts.mapValues fun n : Int => (n : ℚ)) =
      (buildDendrogram s.counts s.weights).map
        (Option.map (Dendrogram.rescale ((s.total : ℚ) * ·))) := by
  obtain ⟨weights, hweights, rfl⟩ := Option.map_eq_some_iff.mp hs
  by_cases hnone : (countCalls g).keys = []
  · have hclasses : classesIn (countCalls g) = [] :=
      List.eq_nil_iff_forall_not_mem.mpr fun x hx => by
        simp [classesIn, hnone, Text.mem_members] at hx
    simp only [buildDendrogram, Clusterer.run, Clusterer.ofTables, hclasses]
    rfl
  · have htotal : 0 < totalCalls (countCalls g) :=
      totalCalls_pos (fun _ hn => pos_of_mem_values_countCalls hn) hnone
    have hunit : Rescaling (((totalCalls (countCalls g) : ℤ) : ℚ) * ·) :=
      .mul_pos (Int.cast_pos.mpr htotal)
    simp only [mapValues_normalise htotal hweights]
    exact hunit.buildDendrogram_rescale (countCalls g) weights

/-- **Trees and modules do not depend on the unit of the weights.** When exact weights are
multiplied by a positive number, the dendrogram has the same names, levels and children, and
every coupling is multiplied; so are the averages of the modules, which have the same names and
classes in the same order under the threshold multiplied, whatever the couplings of the tree
that is cut, and for unbounded and undefined thresholds as well. In particular the counts of a
call graph have a dendrogram of the same shape as its weights. -/
theorem unit_independent {c : ℚ} (hc : 0 < c) (weights : CouplingWeights ℚ) :
    (∀ counts : CouplingCounts, buildDendrogram counts (weights.mapValues (c * ·)) =
      (buildDendrogram counts weights).map (Option.map (Dendrogram.rescale (c * ·)))) ∧
    (∀ (root : Option (Dendrogram ℚ)) (k : ℚ → ℚ) (threshold : ℚ) (total : Option Int)
      (keepSingletons : Bool) (naming : String),
      identifyModules (root.map (Dendrogram.rescale k)) (weights.mapValues (c * ·)) (c * threshold)
          total keepSingletons naming =
        (identifyModules root weights threshold total keepSingletons naming).map
          (Module.rescale (c * ·))) ∧
    (∀ (root : Option (Dendrogram Extended)) (k : Extended → Extended) (threshold : Extended)
      (total : Option Int) (keepSingletons : Bool) (naming : String),
      identifyModules (root.map (Dendrogram.rescale k)) (weights.mapValues fun w => .finite (c * w))
          (.finite c * threshold) total keepSingletons naming =
        (identifyModules root (weights.mapValues .finite) threshold total keepSingletons naming).map
          (Module.rescale (.finite c * ·))) ∧
    ∀ g : CallGraph, ∃ s : CouplingSummary ℚ, CouplingSummary.ofGraph? g = some s ∧
      buildDendrogram s.counts (s.counts.mapValues fun n : Int => (n : ℚ)) =
        (buildDendrogram s.counts s.weights).map
          (Option.map (Dendrogram.rescale ((s.total : ℚ) * ·))) := by
  have hunit : Rescaling (α := ℚ) (c * ·) := .mul_pos hc
  have hunit' : Rescaling (α := Extended) (Extended.finite c * ·) := .finite_mul hc
  refine ⟨fun counts => hunit.buildDendrogram_rescale counts weights,
    fun root k threshold => hunit.identifyModules_rescale k root weights threshold,
    fun root k threshold total keepSingletons naming => ?_, fun g => ?_⟩
  · have hweights : (weights.mapValues fun w => Extended.finite (c * w)) =
        (weights.mapValues .finite).mapValues (Extended.finite c * ·) := by
      simp only [OrderedMap.mapValues, List.map_map]
      rfl
    rw [hweights]
    exact hunit'.identifyModules_rescale k root _ threshold total keepSingletons naming
  · obtain ⟨s, hs, -, -⟩ := CouplingSummary.exists_ofGraph g
    exact ⟨s, hs, buildDendrogram_counts hs⟩

/-- Two weights of one third and two thirds, in units of a third: they become one and two, and
so do the couplings of their dendrogram. -/
theorem unit_independent_of_thirds :
    let counts : CouplingCounts := .ofList [(("a", "b"), 1), (("b", "c"), 2)]
    let weights : CouplingWeights ℚ := .ofList [(("a", "b"), 1 / 3), (("b", "c"), 2 / 3)]
    (0 : ℚ) < 3 ∧ ∃ t, buildDendrogram counts weights = .ok (some t) ∧
      buildDendrogram counts (weights.mapValues (3 * ·)) = .ok (some (t.rescale (3 * ·))) ∧
      identifyModules (some (t.rescale (3 * ·))) (weights.mapValues (3 * ·))
        (3 * (1 / 2)) none false
          Module.defaultNaming =
        (identifyModules (some t) weights (1 / 2) none false Module.defaultNaming).map
          (Module.rescale (3 * ·)) := by
  intro counts weights
  have hc : (0 : ℚ) < 3 := by decide
  obtain ⟨htree, hmodules, -⟩ := unit_independent hc weights
  have hnames : ∀ x ∈ classesIn counts, x ≠ "" := ne_empty_of_mem_classesIn (by decide)
  obtain ⟨root, hroot⟩ : ∃ root, buildDendrogram counts weights = .ok root :=
    (exists_buildDendrogram_iff rfl).mpr hnames
  obtain ⟨t, rfl⟩ := exists_tree_of_run (by cbv; decide) hroot
  refine ⟨hc, t, hroot, ?_, hmodules (some t) (3 * ·) (1 / 2) none false Module.defaultNaming⟩
  rw [htree, hroot]
  rfl

end Linkage
