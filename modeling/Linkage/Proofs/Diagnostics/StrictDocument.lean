import Mathlib
import Linkage.Proofs.Analysis
import Linkage.Proofs.Clustering.Shares
import Linkage.Proofs.Coupling.Sizes
import Linkage.Proofs.Diagnostics.Series
import Linkage.Proofs.Diagnostics.Targets
import Linkage.Proofs.Json.Written
import Linkage.Proofs.Module.Cuts
import Linkage.Proofs.Module.Partition

/-!
# When the document of a diagnostic is strict

Every analysis of a call graph has a document. The numbers in it are finite as long as there is
a module: weights are shares, couplings are averages of weights, and the summaries of the
modules are those of bounded series. Without modules the summaries are of empty series, of
which nothing is known; what is unknown is written as an undefined number, which strict readers
refuse.

## Main results

* `exists_analysis_float`: an analysis in floating point returns, and its figures are finite.
* `Diagnostics.finite_payload_iff`: then the numbers in its document are finite exactly when
  there is a module.
* `Diagnostics.exists_documentText`: every analysis has a document, which is strict JSON
  exactly when its numbers are finite.
* `Diagnostics.isStrictJson_iff_modules_ne_nil`: when the document of a call graph is strict.
-/

namespace Linkage

open Dendrogram

namespace Diagnostics

/-! ### Figures -/

/-- Diagnostics **have finite figures** when their numbers are finite, except for the summaries
of no modules. -/
structure HasFiniteFigures (d : Diagnostics Float) : Prop where
  /-- The couplings of the merges. -/
  merges : ∀ x ∈ d.mergeCouplings, x.isFinite = true
  /-- The share of classes assigned. -/
  coverage : d.coverage.isFinite = true
  /-- The sizes of the modules. -/
  sizes : 0 < d.moduleCount → d.moduleSizes.IsFinite
  /-- The average couplings of the modules. -/
  couplings : 0 < d.moduleCount → d.moduleCouplings.IsFinite
  /-- The threshold that was asked for. -/
  threshold : d.parameters.minCoupling.isFinite = true
  /-- The threshold of the check. -/
  constraints : ∀ r, d.constraints = some r → r.minCoupling.isFinite = true

end Diagnostics

section Bounds

variable {counts : CouplingCounts} {weights : CouplingWeights Float} {parameters : Parameters Float}
  {stop : Nat → Bool} {a : Analysis Float}
  (hclasses : (classesIn counts).length ≤ 2 ^ 121) (hw : ∀ x ∈ weights.values, UpTo (2 ^ 3) x)
  (h : (analyseTables counts weights parameters stop).result = .ok a)

include hclasses

/-- Weights up to eight can be added over all pairs of classes. -/
theorem countBound_classes :
    CountBound ((classesIn counts).length * (classesIn counts).length)
      (fun n => UpTo ((n : ℚ) ^ 2 * 2 ^ 3)) (UpTo (2 ^ 247)) := by
  have hlimit : (classesIn counts).length * (classesIn counts).length ≤ 2 ^ 242 := by
    calc (classesIn counts).length * (classesIn counts).length
        ≤ 2 ^ 121 * 2 ^ 121 := Nat.mul_le_mul hclasses hclasses
      _ = 2 ^ 242 := (pow_add 2 121 121).symm
  exact countBound_float (by decide) hlimit

include h

omit hclasses in
/-- The dendrogram of an analysis has the classes of its table. -/
theorem classes_of_analyseTables {t : Dendrogram Float} (ht : a.dendrogram = some t) :
    t.classes = classesIn counts := by
  obtain ⟨-, -, hrun, -⟩ := stages_of_analyseTables h
  exact classes_of_run (by decide) (ht ▸ hrun)

/-- An analysis has at most so many classes. -/
theorem totalClasses_le : a.totalClasses ≤ 2 ^ 121 := by
  rw [Analysis.totalClasses]
  cases ht : a.dendrogram with
  | none => exact Nat.zero_le _
  | some t =>
      rw [← classes_of_analyseTables h ht] at hclasses
      exact hclasses

/-- The share of classes assigned is finite. -/
theorem isFinite_coverage : (Diagnostics.ofAnalysis a).coverage.isFinite = true := by
  have htotal := totalClasses_le hclasses h
  rw [(partitioned_of_analyseTables (by decide) h).coverage_eq]
  split
  · exact (Within.zero 0).isFinite
  · next hpos =>
    have hlarge : (a.totalClasses : ℚ) < 2 ^ 1023 :=
      lt_of_le_of_lt (by exact_mod_cast htotal)
        (pow_lt_pow_right₀ one_lt_two (by decide : 121 < 1023))
    obtain ⟨v, hv, -⟩ := UpTo.natCast_div_natCast (Nat.sub_le _ a.unassignedClasses.length)
      (Nat.pos_of_ne_zero hpos) hlarge
    exact hv.isFinite

/-- There are no more modules than classes. -/
theorem length_modules_le : a.modules.length ≤ 2 ^ 121 := by
  have hpart := partitioned_of_analyseTables (by decide) h
  have hsizes : ∀ n ∈ a.modules.map Module.classCount, 1 ≤ n := by
    intro n hn
    obtain ⟨m, hm, rfl⟩ := List.mem_map.mp hn
    obtain ⟨-, -, -, hmodules⟩ := stages_of_analyseTables h
    obtain ⟨-, v, -, -, rfl⟩ := Cutter.of_mem_modules (hmodules ▸ hm)
    exact v.classCount_pos
  have hsum := List.card_nsmul_le_sum _ 1 hsizes
  rw [hpart.sum_classCount, hpart.length_assignedClasses, List.length_map, smul_eq_mul,
    mul_one] at hsum
  have htotal := totalClasses_le hclasses h
  omega

include hw

/-- The couplings of the merges are bounded. -/
theorem upTo_mergeCouplings {x : Float} (hx : x ∈ a.mergeCouplings) : UpTo (2 ^ 247) x := by
  obtain ⟨-, -, hrun, -⟩ := stages_of_analyseTables h
  rw [Analysis.mergeCouplings] at hx
  cases ht : a.dendrogram with
  | none => rw [ht] at hx; cases hx
  | some t =>
      rw [ht] at hx hrun
      obtain ⟨v, hv, rfl⟩ := List.mem_map.mp hx
      have hnode : v ∈ t.nodes := (List.mem_filter.mp ((List.mergeSort_perm _ _).mem_iff.mp hv)).1
      exact good_coupling_of_run (by decide) (countBound_classes hclasses)
        (by simpa using hw) hrun v
        hnode

/-- The modules have bounded averages, and no more classes than there are. -/
theorem bounds_of_mem_modules {m : Module Float} (hm : m ∈ a.modules) :
    UpTo (2 ^ 247) m.averageCoupling ∧ m.classCount ≤ 2 ^ 121 := by
  obtain ⟨-, -, -, hmodules⟩ := stages_of_analyseTables h
  obtain ⟨t, v, ht, hv, rfl⟩ := Cutter.of_mem_modules (hmodules ▸ hm)
  have hlength : v.classes.length ≤ (classesIn counts).length := by
    rw [← classes_of_analyseTables h ht]
    exact length_le_of_subset v.nodup_classes (classes_subset_of_mem_nodes hv)
  have hpairs : (orderedPairs (Text.members v.classes)).length ≤
      (classesIn counts).length * (classesIn counts).length := by
    rw [length_orderedPairs, (Text.members_perm v.nodup_classes).length_eq]
    exact ((Nat.choose_le_pow _ 2).trans_eq (sq _)).trans (Nat.mul_le_mul hlength hlength)
  exact ⟨(countBound_classes hclasses).averagePairwise (by simpa using hw) hpairs,
    hlength.trans hclasses⟩

end Bounds

/-- An analysis keeps its parameters, and the check of its cut has their threshold. -/
theorem parameters_of_analyseTables {α : Type} [Scalar α] {counts : CouplingCounts}
    {weights : CouplingWeights α} {parameters : Parameters α} {stop : Nat → Bool} {a : Analysis α}
    (h : (analyseTables counts weights parameters stop).result = .ok a) :
    a.parameters = parameters ∧
      ∀ r, a.constraints = some r → r.minCoupling = parameters.minCoupling := by
  rw [analyseTables_result] at h
  split at h
  · cases h
  · obtain rfl := Except.ok.inj h
    refine ⟨rfl, fun r hr => ?_⟩
    obtain rfl := Option.some.inj hr
    rfl

/-- **The figures of an analysis are finite** when its weights are bounded, its classes fit
into memory and the threshold is finite. -/
theorem hasFiniteFigures_of_analyseTables {counts : CouplingCounts}
    {weights : CouplingWeights Float}
    {parameters : Parameters Float} {stop : Nat → Bool} {a : Analysis Float}
    (hclasses : (classesIn counts).length ≤ 2 ^ 121) (hw : ∀ x ∈ weights.values, UpTo (2 ^ 3) x)
    (hthreshold : parameters.minCoupling.isFinite = true)
    (h : (analyseTables counts weights parameters stop).result = .ok a) :
    (Diagnostics.ofAnalysis a).HasFiniteFigures := by
  obtain ⟨hparameters, hconstraints⟩ := parameters_of_analyseTables h
  have hlength : ∀ f : Module Float → Float, (a.modules.map f).length ≤ 2 ^ 121 := fun f => by
    rw [List.length_map]
    exact length_modules_le hclasses h
  have hne : ∀ f : Module Float → Float, 0 < a.modules.length → a.modules.map f ≠ [] :=
    fun f hpos => by simpa [← List.length_pos_iff] using hpos
  refine ⟨fun x hx => (upTo_mergeCouplings hclasses hw h hx).within.isFinite,
    isFinite_coverage hclasses h, fun hpos => ?_, fun hpos => ?_, ?_, fun r hr => ?_⟩
  · refine Diagnostics.summaryOf_of_bounded (j := 121) (k := 247) (by decide) (hne _ hpos)
      (fun x hx => ?_) (hlength _)
    obtain ⟨m, hm, rfl⟩ := List.mem_map.mp hx
    have hcount : (m.classCount : ℚ) ≤ 2 ^ 121 := by
      exact_mod_cast (bounds_of_mem_modules hclasses hw h hm).2
    refine (UpTo.natCast (hcount.trans_lt (pow_lt_pow_right₀ one_lt_two (by decide)))).mono ?_
    calc 2 * (m.classCount : ℚ) ≤ 2 * 2 ^ 121 := mul_le_mul_of_nonneg_left hcount zero_le_two
      _ = 2 ^ 122 := (pow_succ' 2 121).symm
      _ ≤ 2 ^ 247 := pow_le_pow_right₀ one_le_two (by decide)
  · refine Diagnostics.summaryOf_of_bounded (j := 121) (k := 247) (by decide) (hne _ hpos)
      (fun x hx => ?_) (hlength _)
    obtain ⟨m, hm, rfl⟩ := List.mem_map.mp hx
    exact (bounds_of_mem_modules hclasses hw h hm).1
  · show a.parameters.minCoupling.isFinite = true
    rwa [hparameters]
  · rwa [hconstraints r hr]

/-- **An analysis in floating point returns**, and its figures are finite, when the call graph
fits into memory and the threshold is finite. -/
theorem exists_analysis_float {g : CallGraph} (hg : g.FitsMemory) {parameters : Parameters Float}
    (hthreshold : parameters.minCoupling.isFinite = true) :
    ∃ a, (analyse g parameters fun _ => false).result = .ok a ∧
      (Diagnostics.ofAnalysis a).HasFiniteFigures := by
  obtain ⟨weights, hweights, -, hw⟩ := exists_weights_float (by decide : 120 < 1023)
    (fun _ hn => pos_of_mem_values_countCalls (g := g) hn) hg.totalCalls_le
  have hs : CouplingSummary.ofGraph? g =
      some ⟨countCalls g, totalCalls (countCalls g), weights, .detect g⟩ := by
    rw [CouplingSummary.ofGraph?, hweights, Option.map_some]
  have hnames : ∀ x ∈ classesIn (countCalls g), x ≠ "" :=
    ne_empty_of_mem_classesIn fun p hp => ne_empty_of_mem_keys_countCalls hp
  rw [analyse_result hs]
  obtain ⟨a, ha⟩ :=
    (exists_analysis_of_tables_iff (by decide : ((0 : Float) == 0) = true)).mpr hnames
  exact ⟨a, ha, hasFiniteFigures_of_analyseTables hg.length_classesIn_le hw hthreshold ha⟩

/-- A call graph without classes has no modules. -/
theorem modules_eq_nil_of_no_classes {α : Type} [Scalar α] {g : CallGraph}
    {parameters : Parameters α}
    {stop : Nat → Bool} {a : Analysis α} (h : (analyse g parameters stop).result = .ok a)
    (hnone : classesIn (countCalls g) = []) : a.modules = [] := by
  obtain ⟨s, hs, hcounts⟩ := exists_summary_of_analyse h
  obtain ⟨-, -, hrun, hmodules⟩ := stages_of_analyse hs h
  rw [hcounts, (run_of_no_classes s.weights stop hnone).1] at hrun
  rw [hmodules, ← Except.ok.inj hrun]
  rfl

/-! ### Documents -/

namespace Diagnostics

open Json

/-- A known number is finite in a document when it is finite. -/
@[simp] theorem finite_knownOr_some (x : Float) : (knownOr (some x)).finite = x.isFinite := by
  simp [knownOr]

/-- What is unknown is written as an undefined number. -/
@[simp] theorem finite_knownOr_none : (knownOr none).finite = false := by
  rw [knownOr, Option.getD_none, Value.finite_real]
  decide +kernel

/-- The summary of a series is finite when its mean, its variance and its quantiles are. -/
theorem finite_seriesValue (s : SeriesSummary Float) :
    (seriesValue s).finite = ((knownOr s.mean).finite && ((knownOr s.variance).finite &&
      s.quantiles.all fun q => (knownOr q.2).finite)) := by
  simp [seriesValue]

/-- A finite summary has finite numbers only. -/
theorem finite_seriesValue_of_isFinite {s : SeriesSummary Float} (h : s.IsFinite) :
    (seriesValue s).finite = true := by
  obtain ⟨⟨m, hmean, hm⟩, ⟨v, hvariance, hv⟩, hquantiles⟩ := h
  rw [finite_seriesValue, hmean, hvariance, finite_knownOr_some, finite_knownOr_some, hm, hv,
    Bool.true_and, Bool.true_and, List.all_eq_true]
  intro q hq
  obtain ⟨x, hx, hfinite⟩ := hquantiles q hq
  rw [hx, finite_knownOr_some, hfinite]

/-- The numbers in the document of an analysis. -/
theorem finite_payload (a : Analysis Float) :
    (payload a).finite = ((ofAnalysis a).coverage.isFinite &&
      ((seriesValue (ofAnalysis a).moduleSizes).finite &&
        ((seriesValue (ofAnalysis a).moduleCouplings).finite &&
          (a.mergeCouplings.all Float.isFinite &&
            ((a.constraints.all fun r => r.minCoupling.isFinite) &&
              a.parameters.minCoupling.isFinite))))) := by
  have hconstraints : ((a.constraints.map constraintValue).getD .null).finite =
      a.constraints.all fun r => r.minCoupling.isFinite := by
    cases a.constraints <;> simp [constraintValue]
  have hparameters : a.parameters.toValue.finite = a.parameters.minCoupling.isFinite := by
    simp [Parameters.toValue]
  simp [payload, payloadWith, toValue, hparameters, ← hconstraints, ofAnalysis]

/-- The document of no modules has a number that is not finite: their mean size is unknown. -/
theorem finite_payload_of_modules_eq_nil {a : Analysis Float} (h : a.modules = []) :
    (payload a).finite = false := by
  have hsizes : (seriesValue (ofAnalysis a).moduleSizes).finite = false := by
    have hempty : (ofAnalysis a).moduleSizes = summaryOf [] := by rw [ofAnalysis, h, List.map_nil]
    rw [hempty, summaryOf_eq, finite_seriesValue]
    simp
  rw [finite_payload, hsizes, Bool.false_and, Bool.and_false]

/-- **The document of diagnostics with finite figures** has finite numbers exactly when there
is a module. -/
theorem finite_payload_iff {a : Analysis Float} (h : (ofAnalysis a).HasFiniteFigures) :
    (payload a).finite = true ↔ a.modules ≠ [] := by
  constructor
  · intro hfinite hnone
    rw [finite_payload_of_modules_eq_nil hnone] at hfinite
    cases hfinite
  · intro hsome
    have hpos : 0 < (ofAnalysis a).moduleCount := List.length_pos_iff.mpr hsome
    have hmerges : a.mergeCouplings.all Float.isFinite = true := List.all_eq_true.mpr h.merges
    have hconstraints : (a.constraints.all fun r => r.minCoupling.isFinite) = true := by
      rw [Option.all_eq_true]
      exact h.constraints
    rw [finite_payload, h.coverage, finite_seriesValue_of_isFinite (h.sizes hpos),
      finite_seriesValue_of_isFinite (h.couplings hpos), hmerges, hconstraints]
    exact h.threshold

/-- The summary of a series can be written. -/
theorem writable_seriesValue (s : SeriesSummary Float) : Writable (seriesValue s) := by
  have hquantiles : Writable (.map (s.quantiles.map fun q => (.real q.1, knownOr q.2))) := by
    refine .map (fun e he => ?_) (fun e he f hf => ?_) (fun e he => ?_)
    · obtain ⟨q, -, rfl⟩ := List.mem_map.mp he
      exact ⟨_, rfl⟩
    · obtain ⟨q, -, rfl⟩ := List.mem_map.mp he
      obtain ⟨p, -, rfl⟩ := List.mem_map.mp hf
      exact ⟨(Number.float q.1).less (.float p.1), by simp only [Value.less?, Value.number?]⟩
    · obtain ⟨q, -, rfl⟩ := List.mem_map.mp he
      exact .real _
  refine writable_record ?_
  simp only [List.forall_mem_cons]
  exact ⟨.int _, .real _, .real _, hquantiles, List.forall_mem_nil _⟩

/-- The document of every analysis can be written. -/
theorem writable_payload (a : Analysis Float) : Writable (payload a) := by
  have hconstraints : Writable (((ofAnalysis a).constraints.map constraintValue).getD .null) := by
    cases (ofAnalysis a).constraints with
    | none => exact .null
    | some r =>
        refine writable_record ?_
        simp only [List.forall_mem_cons]
        exact ⟨.int _, .int _, .real _, .flag _, .flag _, .flag _, List.forall_mem_nil _⟩
  have hparameters : Writable a.parameters.toValue := by
    refine writable_record ?_
    simp only [List.forall_mem_cons]
    exact ⟨.real _, .flag _, .text _, List.forall_mem_nil _⟩
  have hmetadata : Writable (.record [("diagnostics_version", .text version)]) := by
    refine writable_record ?_
    simp only [List.forall_mem_cons]
    exact ⟨.text _, List.forall_mem_nil _⟩
  have hclustering : Writable
      ((ofAnalysis a).toValue a.parameters.toValue (Fingerprint.ofModules a.modules)) := by
    refine writable_record ?_
    simp only [List.forall_mem_cons]
    exact ⟨.int _, .int _, .int _, .real _, writable_texts _, writable_seriesValue _,
      writable_seriesValue _, writable_reals _, .int _, hconstraints, hparameters, .text _,
      List.forall_mem_nil _⟩
  refine writable_record ?_
  simp only [List.forall_mem_cons]
  exact ⟨hmetadata, hclustering, List.forall_mem_nil _⟩

/-- **Every analysis has a document**, and its text is strict JSON exactly when its numbers are
finite. -/
theorem exists_documentText (a : Analysis Float) :
    ∃ s, Artifact.documentText (payload a) = .ok s ∧
      (IsStrictJson s ↔ (payload a).finite = true) := by
  obtain ⟨s, hs⟩ := (writable_payload a).exists_write_eq_ok .diagnostics 0
  have hbreak : IsBlank "\n".toList := by simp [IsBlank, isSpace]
  refine ⟨s ++ "\n", ?_, isStrictJson_append_iff hs hbreak⟩
  rw [Artifact.documentText, document, hs, Except.map]

/-- **The document of an analysis is strict JSON exactly when there is a module**: for every
call graph that fits into memory and every finite threshold the analysis returns, its
diagnostics have a document, and that document is the one that is left in a file. Without
modules the summaries of their sizes and couplings hold undefined numbers. -/
theorem isStrictJson_iff_modules_ne_nil {g : CallGraph} (hg : g.FitsMemory)
    {parameters : Parameters Float} (hthreshold : parameters.minCoupling.isFinite = true) :
    ∃ a s, (analyse g parameters fun _ => false).result = .ok a ∧
      Artifact.documentText (payload a) = .ok s ∧
      (∀ target t path t', (Artifact.putDocument (payload a) target).run t = (.ok path, t') →
        t'.look path = .ok (.text s)) ∧
      (IsStrictJson s ↔ a.modules ≠ []) := by
  obtain ⟨a, ha, hfigures⟩ := exists_analysis_float hg hthreshold
  obtain ⟨s, hs, hstrict⟩ := exists_documentText a
  refine ⟨a, s, ha, hs, fun target t path t' hput => ?_,
    hstrict.trans (finite_payload_iff hfigures)⟩
  rw [Artifact.run_putDocument hs] at hput
  exact (Artifact.of_run_put_ok hput).2.2.2

/-- The graph of one call, with the standard parameters. -/
theorem isStrictJson_iff_modules_ne_nil_of_one_call :
    let g : CallGraph := .ofList [("p.A.f", ["p.B.g"])]
    let parameters : Parameters Float := .standard
    g.FitsMemory ∧ parameters.minCoupling.isFinite = true ∧
      ∃ a s, (analyse g parameters fun _ => false).result = .ok a ∧
        Artifact.documentText (payload a) = .ok s ∧ (IsStrictJson s ↔ a.modules ≠ []) := by
  intro g parameters
  have hg : g.FitsMemory := ⟨by decide, by decide⟩
  have hthreshold : parameters.minCoupling.isFinite = true := by decide +kernel
  obtain ⟨a, s, ha, hs, -, hstrict⟩ := isStrictJson_iff_modules_ne_nil hg hthreshold
  exact ⟨hg, hthreshold, a, s, ha, hs, hstrict⟩

/-- The document of a call graph without calls is not strict. -/
theorem not_isStrictJson_of_no_calls :
    let g : CallGraph := .empty
    let parameters : Parameters Float := .standard
    parameters.minCoupling.isFinite = true ∧
      ∃ a s, (analyse g parameters fun _ => false).result = .ok a ∧
        Artifact.documentText (payload a) = .ok s ∧ ¬ IsStrictJson s := by
  intro g parameters
  have hg : g.FitsMemory := ⟨by decide, by decide⟩
  have hthreshold : parameters.minCoupling.isFinite = true := by decide +kernel
  obtain ⟨a, ha, -⟩ := exists_analysis_float hg hthreshold
  obtain ⟨s, hs, hstrict⟩ := exists_documentText a
  refine ⟨hthreshold, a, s, ha, hs, fun h => ?_⟩
  rw [hstrict, finite_payload_of_modules_eq_nil (modules_eq_nil_of_no_classes ha (by cbv))] at h
  cases h

end Diagnostics

end Linkage
