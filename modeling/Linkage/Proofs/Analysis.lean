import Mathlib
import Linkage.Proofs.Clustering.History
import Linkage.Proofs.Coupling.Shares

/-!
# What an analysis has done

An analysis that returns has weighed the calls of its graph, has run the clustering to its end
and has cut the dendrogram. `AnalysisOf` records what each stage leaves behind, so that a
property of the whole is put together from properties of the stages. It is stated over the
rational numbers, the rest over any exact numbers.

## Main results

* `stages_of_analyseTables`, `stages_of_analyse`: what the stages of an analysis have returned,
  over any scalars.
* `exists_analysis_of_tables_iff`: an analysis of tables returns when every class has a name.
* `exists_analysis`: an analysis that is not stopped returns.
* `analysisOf_of_analyse`: what an analysis that returns has done.
* `AnalysisOf.exists_dendrogram`: it has a dendrogram, unless there are no classes.
* `AnalysisOf.classes_eq`: the dendrogram has the classes of the call graph.
-/

namespace Linkage

section

variable {α : Type} [Scalar α] {g : CallGraph} {parameters : Parameters α} {stop : Nat → Bool}

/-- The result of an analysis of tables, stage by stage. -/
theorem analyseTables_result (counts : CouplingCounts) (weights : CouplingWeights α)
    (parameters : Parameters α) (stop : Nat → Bool) :
    (analyseTables counts weights parameters stop).result =
      match (Clusterer.ofTables counts weights stop).run.1.result with
      | .error halt => .error (.halted halt)
      | .ok root =>
        let outcome := (Cutter.ofTree root (classTotal root) parameters.minCoupling weights
          parameters.keepSingletons parameters.naming).identify.1
        .ok ⟨root, outcome.modules, counts, weights, some outcome.report, parameters⟩ := by
  simp only [analyseTables]
  cases (Clusterer.ofTables counts weights stop).run.1.result <;> rfl

/-- What the stages of an analysis of tables that returns have returned. -/
theorem stages_of_analyseTables {counts : CouplingCounts} {weights : CouplingWeights α}
    {a : Analysis α} (h : (analyseTables counts weights parameters stop).result = .ok a) :
    a.counts = counts ∧ a.weights = weights ∧
      (Clusterer.ofTables counts weights stop).run.1.result = .ok a.dendrogram ∧
      a.modules = (Cutter.ofTree a.dendrogram (classTotal a.dendrogram) parameters.minCoupling
        weights parameters.keepSingletons parameters.naming).identify.1.modules := by
  rw [analyseTables_result] at h
  cases hrun : (Clusterer.ofTables counts weights stop).run.1.result with
  | error halt => simp [hrun] at h
  | ok root =>
      simp only [hrun, Except.ok.injEq] at h
      subst h
      exact ⟨rfl, rfl, rfl, rfl⟩

/-- **An analysis of tables that is not stopped returns** exactly when every class has
a name. -/
theorem exists_analysis_of_tables_iff (hz : ((0 : α) == 0) = true) {counts : CouplingCounts}
    {weights : CouplingWeights α} :
    (∃ a, (analyseTables counts weights parameters fun _ => false).result = .ok a) ↔
      ∀ x ∈ classesIn counts, x ≠ "" := by
  have hbuild : (∃ root, buildDendrogram counts weights = .ok root) ↔
      ∀ x ∈ classesIn counts, x ≠ "" := exists_buildDendrogram_iff hz
  rw [← hbuild, analyseTables_result, buildDendrogram]
  cases (Clusterer.ofTables counts weights fun _ => false).run.1.result <;> simp

/-- The result of an analysis is that of its tables. -/
theorem analyse_result {s : CouplingSummary α} (hs : CouplingSummary.ofGraph? g = some s) :
    (analyse g parameters stop).result =
      (analyseTables s.counts s.weights parameters stop).result := by
  simp only [analyse, hs]

/-- What the stages of an analysis that returns have returned. -/
theorem stages_of_analyse {s : CouplingSummary α} (hs : CouplingSummary.ofGraph? g = some s)
    {a : Analysis α} (h : (analyse g parameters stop).result = .ok a) :
    a.counts = s.counts ∧ a.weights = s.weights ∧
      (Clusterer.ofTables s.counts s.weights stop).run.1.result = .ok a.dendrogram ∧
      a.modules = (Cutter.ofTree a.dendrogram (classTotal a.dendrogram) parameters.minCoupling
        s.weights parameters.keepSingletons parameters.naming).identify.1.modules :=
  stages_of_analyseTables (analyse_result hs ▸ h)

/-- An analysis that returns has weighed the calls of its graph. -/
theorem exists_summary_of_analyse {a : Analysis α}
    (h : (analyse g parameters stop).result = .ok a) :
    ∃ s : CouplingSummary α, CouplingSummary.ofGraph? g = some s ∧ s.counts = countCalls g := by
  cases hs : (CouplingSummary.ofGraph? g : Option (CouplingSummary α)) with
  | none => simp [analyse, hs] at h
  | some s =>
      obtain ⟨weights, -, rfl⟩ := Option.map_eq_some_iff.mp hs
      exact ⟨_, rfl, rfl⟩

/-- **An analysis that is not stopped returns.** -/
theorem exists_analysis [ExactScalar α] (g : CallGraph) (parameters : Parameters α) :
    ∃ a, (analyse g parameters fun _ => false).result = .ok a := by
  obtain ⟨s, hs, hcounts, -⟩ := CouplingSummary.exists_shares (α := α) g
  have hnames : ∀ x ∈ classesIn (countCalls g), x ≠ "" :=
    ne_empty_of_mem_classesIn fun p hp => ne_empty_of_mem_keys_countCalls hp
  rw [analyse_result hs, hcounts]
  exact (exists_analysis_of_tables_iff ExactScalar.zero_beq_zero).mpr hnames

end

/-- The **stages of an analysis**: the weights are normalised, the run over the table has
returned the dendrogram, and the modules are those of the cut. -/
structure AnalysisOf (g : CallGraph) (parameters : Parameters ℚ) (stop : Nat → Bool)
    (a : Analysis ℚ) : Prop where
  /-- The counts are those of the graph. -/
  counts_eq : a.counts = countCalls g
  /-- The weights are shares of the counts. -/
  normalised : Normalised (countCalls g) a.weights
  /-- The run has returned the dendrogram. -/
  run_eq : (Clusterer.ofTables (countCalls g) a.weights stop).run.1.result = .ok a.dendrogram
  /-- The modules are those of the cut. -/
  modules_eq : a.modules = (Cutter.ofTree a.dendrogram (classTotal a.dendrogram)
    parameters.minCoupling a.weights parameters.keepSingletons
    parameters.naming).identify.1.modules

section

variable {g : CallGraph} {parameters : Parameters ℚ} {stop : Nat → Bool} {a : Analysis ℚ}

/-- **What an analysis that returns has done.** -/
theorem analysisOf_of_analyse (h : (analyse g parameters stop).result = .ok a) :
    AnalysisOf g parameters stop a := by
  obtain ⟨s, hs, hcounts, hnormal⟩ := CouplingSummary.exists_ofGraph g
  obtain ⟨hcounts', hweights, hrun, hmodules⟩ := stages_of_analyse hs h
  rw [hcounts, ← hweights] at hrun
  rw [← hweights] at hnormal hmodules
  exact ⟨hcounts'.trans hcounts, hnormal, hrun, hmodules⟩

namespace AnalysisOf

variable (h : AnalysisOf g parameters stop a)
include h

/-- The weights belong to pairs of classes in increasing order. -/
theorem lt_of_mem_keys {x y : String} (hxy : (x, y) ∈ a.weights.keys) : x < y :=
  (mem_keys_countCalls.mp (h.normalised.keys_eq ▸ hxy)).1

/-- No two classes have their coupling stored twice. -/
theorem eachPairOnce : EachPairOnce a.weights := by
  rw [EachPairOnce, h.normalised.keys_eq]
  exact eachPairOnce_countCalls g

/-- The dendrogram has the classes of the call graph. -/
theorem classes_eq {t : Dendrogram ℚ} (ht : a.dendrogram = some t) :
    t.classes = classesIn (countCalls g) :=
  classes_of_run (by decide) (ht ▸ h.run_eq)

/-- The dendrogram is well-formed. -/
theorem wellFormed {t : Dendrogram ℚ} (ht : a.dendrogram = some t) : t.WellFormed :=
  (forest_of_run (by decide) (ht ▸ h.run_eq)).wellFormed t (by simp)

/-- A call graph with classes has a dendrogram. -/
theorem exists_dendrogram (hsome : classesIn (countCalls g) ≠ []) : ∃ t, a.dendrogram = some t :=
  exists_tree_of_run hsome h.run_eq

end AnalysisOf

end

end Linkage
