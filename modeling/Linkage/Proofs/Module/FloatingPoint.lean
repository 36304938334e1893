import Mathlib
import Linkage.Proofs.Coupling.Sizes
import Linkage.Proofs.Module.Budget
import Linkage.Proofs.Module.Crowding
import Linkage.Proofs.Module.Refinement

/-!
# The modules of a run in floating point

The program computes in floating point, in which an average of non-negative weights may be
undefined: a sum may be unbounded, and so may a number of pairs. A cut asks of its averages
only that the one of the whole tree is not negative. This holds as long as a tree has at most
`2 ^ 121` classes and no weight exceeds `2 ^ 500`, and then the cut does in floating point what
it does for exact numbers, whatever the threshold and however the averages round.

The call graphs that fit into memory are far below these bounds, for their weights are
quotients of counts. So what is said of trees here is said of every run of the program.

## Main results

* `SuitsFloat.averagePairwise_nonneg`: the average of such a tree is not negative.
* `SuitsFloat.modules_eq_topmost`, `SuitsFloat.length_modules_le`: which modules it
  has, and how many.
* `suitsFloat_of_analyse`: the tree of a run on a call graph in memory.
* `modules_of_analyse_float`: the modules of such a run.
* `modules_refine_of_analyse_float`, `kept_of_analyse_float`: the modules of runs with a higher
  threshold, and with singletons kept.
-/

namespace Linkage

open Dendrogram

/-- A tree and a table of weights **suit floating point** when neither is too large and no
weight is negative. -/
structure SuitsFloat (t : Dendrogram Float) (weights : CouplingWeights Float) : Prop where
  /-- The tree is well-formed. -/
  wellFormed : t.WellFormed
  /-- The tree is not too large. -/
  classCount_le : t.classCount ≤ 2 ^ 121
  /-- The weights are neither negative nor too large. -/
  weights_le : ∀ x ∈ weights.values, UpTo (2 ^ 500) x

/-! ### Trees -/

namespace SuitsFloat

variable {t : Dendrogram Float} {weights : CouplingWeights Float} (h : SuitsFloat t weights)

include h

/-- **The average of the tree** is not negative: the sum over its pairs stays finite. -/
theorem averagePairwise_nonneg : 0 ≤ averagePairwise t.classes weights := by
  have hpairs : (orderedPairs (Text.members t.classes)).length ≤ 2 ^ 242 := by
    rw [length_orderedPairs, (Text.members_perm t.nodup_classes).length_eq]
    calc t.classes.length.choose 2 ≤ t.classes.length ^ 2 := Nat.choose_le_pow _ 2
      _ ≤ (2 ^ 121) ^ 2 := Nat.pow_le_pow_left h.classCount_le 2
      _ = 2 ^ 242 := (pow_mul 2 121 2).symm
  have hbound := countBound_float (j := 242) (k := 500) (by decide) hpairs
  have hweights : ∀ x ∈ weights.values, UpTo (((1 : ℕ) : ℚ) ^ 2 * 2 ^ 500) x := by
    simpa using h.weights_le
  exact (hbound.averagePairwise hweights le_rfl).zero_le

/-- **The modules of the tree** are its topmost cohesive nodes, for every threshold. -/
theorem modules_eq_topmost (threshold : Float) (naming : String) :
    identifyModules (some t) weights threshold none false naming =
      (topmost (cohesive weights threshold) t).map (moduleOf weights naming) :=
  Cutter.modules_eq_topmost h.wellFormed h.averagePairwise_nonneg threshold naming

/-- **How many modules the tree has** under any total. -/
theorem length_modules_le (threshold : Float) (total : ℕ) (keep : Bool) (naming : String) :
    let found := identifyModules (some t) weights threshold (some (total : Int)) keep naming
    found.length ≤ max (total / 2) (t.classCount / 2) ∧
      (keep = true → found.length ≤ total / 2) :=
  length_identifyModules_le_max h.wellFormed h.averagePairwise_nonneg threshold total keep naming

/-- With singletons kept, the modules of two classes or more are the first ones of those found
without them. -/
theorem filter_kept_prefix_modules (threshold : Float) (naming : String) :
    ((identifyModules (some t) weights threshold none true naming).filter fun m =>
      decide (2 ≤ m.classCount)) <+:
      identifyModules (some t) weights threshold none false naming := by
  have hkept : identifyModules (some t) weights threshold none true naming =
      ((parts weights threshold t).take (t.classCount / 2)).map (moduleOf weights naming) := by
    have hcut := identifyModules_eq_cut weights threshold t.classCount true naming t
    exact hcut.trans (CutRule.cut_of_keepSingletons rfl rfl t _ (CutRule.sound_nil weights)).1
  exact filter_kept_prefix_topmost h.wellFormed weights threshold naming
    (h.modules_eq_topmost threshold naming) hkept

end SuitsFloat

/-! ### Runs -/

/-- The modules of an analysis are those of its dendrogram under its weights. -/
theorem modules_of_analyse {α : Type} [Scalar α] {g : CallGraph} {parameters : Parameters α}
    {stop : Nat → Bool} {a : Analysis α} (ha : (analyse g parameters stop).result = .ok a) :
    a.modules = identifyModules a.dendrogram a.weights parameters.minCoupling none
      parameters.keepSingletons parameters.naming := by
  obtain ⟨s, hs, -⟩ := exists_summary_of_analyse ha
  obtain ⟨-, hweights, -, hmodules⟩ := stages_of_analyse hs ha
  rw [hmodules, hweights]
  rfl

/-- Analyses of a call graph have the same dendrogram and the same weights, whatever else is
asked for. -/
theorem dendrogram_eq_of_analyse {α : Type} [Scalar α] {g : CallGraph}
    {parameters parameters' : Parameters α} {stop : Nat → Bool} {a a' : Analysis α}
    (ha : (analyse g parameters stop).result = .ok a)
    (ha' : (analyse g parameters' stop).result = .ok a') :
    a'.dendrogram = a.dendrogram ∧ a'.weights = a.weights := by
  obtain ⟨s, hs, -⟩ := exists_summary_of_analyse ha
  obtain ⟨-, hweights, hrun, -⟩ := stages_of_analyse hs ha
  obtain ⟨-, hweights', hrun', -⟩ := stages_of_analyse hs ha'
  exact ⟨Except.ok.inj (hrun'.symm.trans hrun), hweights'.trans hweights.symm⟩

section Runs

variable {g : CallGraph} (hg : g.FitsMemory) {parameters : Parameters Float} {stop : Nat → Bool}
  {a : Analysis Float} (ha : (analyse g parameters stop).result = .ok a)

include hg ha

/-- **The tree of a run** on a call graph in memory suits floating point, with its weights. -/
theorem suitsFloat_of_analyse {t : Dendrogram Float} (ht : a.dendrogram = some t) :
    SuitsFloat t a.weights := by
  obtain ⟨weights, hweights, -, hbound⟩ := exists_weights_float (by decide : 120 < 1023)
    (fun _ hn => pos_of_mem_values_countCalls (g := g) hn) hg.totalCalls_le
  have hs : CouplingSummary.ofGraph? g =
      some ⟨countCalls g, totalCalls (countCalls g), weights, .detect g⟩ := by
    rw [CouplingSummary.ofGraph?, hweights, Option.map_some]
  obtain ⟨-, hsame, hrun, -⟩ := stages_of_analyse hs ha
  rw [ht] at hrun
  have hclasses : t.classes = classesIn (countCalls g) := classes_of_run (by decide) hrun
  refine ⟨(forest_of_run (by decide) hrun).wellFormed t List.mem_cons_self, ?_, fun x hx => ?_⟩
  · rw [classCount, hclasses]
    exact hg.length_classesIn_le
  · rw [hsame] at hx
    exact (hbound x hx).mono (pow_le_pow_right₀ one_le_two (by decide))

/-- **The modules of a run** are the topmost cohesive nodes of its dendrogram, when singletons
are not kept: at most half as many as there are classes. -/
theorem modules_of_analyse_float (hkeep : parameters.keepSingletons = false) :
    (a.modules = a.dendrogram.elim [] fun t =>
      (topmost (cohesive a.weights parameters.minCoupling) t).map
        (moduleOf a.weights parameters.naming)) ∧
      a.modules.length ≤ a.totalClasses / 2 := by
  rw [modules_of_analyse ha, hkeep, Analysis.totalClasses]
  cases ht : a.dendrogram with
  | none => exact ⟨rfl, Nat.zero_le _⟩
  | some t =>
      have hsuits := suitsFloat_of_analyse hg ha ht
      have hmodules := hsuits.modules_eq_topmost parameters.minCoupling parameters.naming
      have htwo := two_mul_length_topmost_le
        (cohesive_leaf a.weights parameters.minCoupling) hsuits.wellFormed
      refine ⟨hmodules, ?_⟩
      rw [hmodules, List.length_map]
      show _ ≤ t.classCount / 2
      omega

variable {parameters' : Parameters Float} {a' : Analysis Float}
  (ha' : (analyse g parameters' stop).result = .ok a')

include ha'

/-- **A higher threshold refines the modules of a run**, when singletons are not kept. -/
theorem modules_refine_of_analyse_float (hkeep : parameters.keepSingletons = false)
    (hkeep' : parameters'.keepSingletons = false)
    (hle : parameters.minCoupling ≤ parameters'.minCoupling) :
    ∀ m ∈ a'.modules, ∃ m' ∈ a.modules, m.classes ⊆ m'.classes := by
  obtain ⟨htree, hweights⟩ := dendrogram_eq_of_analyse ha ha'
  rw [(modules_of_analyse_float hg ha hkeep).1, (modules_of_analyse_float hg ha' hkeep').1, htree,
    hweights]
  cases a.dendrogram with
  | none => exact fun m hm => absurd hm List.not_mem_nil
  | some t => exact topmost_modules_refine hle parameters'.naming parameters.naming t

/-- **Singletons take the room of other modules**: the modules of two classes or more that a
run finds when it keeps singletons are the first ones of those that it finds without them. -/
theorem kept_of_analyse_float (hkeep : parameters.keepSingletons = false)
    (hsame : parameters' = { parameters with keepSingletons := true }) :
    (a'.modules.filter fun m => decide (2 ≤ m.classCount)) <+: a.modules := by
  obtain ⟨htree, hweights⟩ := dendrogram_eq_of_analyse ha ha'
  rw [modules_of_analyse ha, modules_of_analyse ha', hkeep, htree, hweights, hsame]
  cases ht : a.dendrogram with
  | none => exact List.prefix_rfl
  | some t => exact (suitsFloat_of_analyse hg ha ht).filter_kept_prefix_modules _ _

end Runs

end Linkage
