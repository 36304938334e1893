import Mathlib
import Linkage.Proofs.Analysis
import Linkage.Proofs.Module.PairTotal

/-!
# One similarity for clustering and cutting

The clustering sums cells of a weight matrix and the cut looks weights up pair by pair. Over a
table that holds each pair once both read the same weights. A pair of classes of a node lies
within one of the two children or across them, so the total of the pairs of a node is the sum,
over the inner nodes below it, of the totals across their children, and such a total is a
coupling times the number of pairs that it averages.

## Main results

* `coupling_eq_meanWeight_of_run`: couplings are means of the weights that a look-up finds.
* `pairTotal_eq_sum_fusions`: the total of a tree is the sum of the totals across its inner
  nodes.
* `pairTotal_root`: the total of the dendrogram of an analysis is one.
* `averagePairwise_eq_sum_couplings`: the averages of the cut are made of the couplings.
-/

namespace Linkage

open Dendrogram

/-- Over a table that holds each pair once, **a coupling is the mean of the weights that a
look-up finds** between the classes of the two children. -/
theorem coupling_eq_meanWeight_of_run {ν : Type} {counts : OrderedMap ClassPair ν}
    {weights : CouplingWeights ℚ} (h : EachPairOnce weights) {stop : Nat → Bool}
    {t : Dendrogram ℚ} (ht : (Clusterer.ofTables counts weights stop).run.1.result = .ok (some t)) :
    ∀ f ∈ t.fusions, f.coupling = meanWeight (couplingBetween weights) f.left f.right := by
  obtain ⟨fs, rest, hH, hend⟩ := exists_history_of_table counts h stop
  obtain ⟨-, hperm⟩ := hend (some t) ht
  have hfusions : fusionsOf (some t) = t.fusions := by simp [fusionsOf]
  exact fun f hf => hH.coupling_eq f (hperm.mem_iff.mp (hfusions ▸ hf))

/-- **The total of a tree is the sum of the totals across its inner nodes.** Induction on the
tree. -/
theorem pairTotal_eq_sum_fusions {w : String → String → ℚ} (hw : ∀ x y, w x y = w y x)
    {t : Dendrogram ℚ} (ht : t.WellFormed)
    (hmean : ∀ f ∈ t.fusions, f.coupling = meanWeight w f.left f.right) :
    pairTotal w t.classes = (t.fusions.map Fusion.total).sum := by
  induction t with
  | leaf n c => simp [pairTotal, orderedPairs]
  | node n l r c k ihl ihr =>
      obtain ⟨-, -, hd, hl, hr⟩ := ht
      rw [fusions_node, List.forall_mem_cons, List.forall_mem_append] at hmean
      obtain ⟨hroot, hleft, hright⟩ := hmean
      have hacross : Fusion.total ⟨(node n l r c k).classes, l.classes, r.classes, c⟩ =
          totalWeight w l.classes r.classes := by
        rw [Fusion.total, hroot, meanWeight_mul_length w l.classes_ne_nil r.classes_ne_nil]
      rw [pairTotal_node hw hd, ihl hl hleft, ihr hr hright, fusions_node, List.map_cons,
        List.sum_cons, List.map_append, List.sum_append, hacross]
      ring

/-! ### The root of an analysis -/

section

variable {g : CallGraph} {parameters : Parameters ℚ} {stop : Nat → Bool} {a : Analysis ℚ}

/-- The pairs of all classes have the weights of the whole table. -/
theorem AnalysisOf.pairTotal_eq_sum (h : AnalysisOf g parameters stop a) {t : Dendrogram ℚ}
    (ht : a.dendrogram = some t) :
    pairTotal (couplingBetween a.weights) t.classes = a.weights.values.sum := by
  refine pairTotal_eq_sum_values (fun x y hxy => h.lt_of_mem_keys hxy) t.pairwise_classes ?_
  intro x y hxy
  rw [h.normalised.keys_eq] at hxy
  rw [h.classes_eq ht]
  exact ⟨left_mem_classesIn hxy, right_mem_classesIn hxy⟩

/-- **The weights of all pairs of the dendrogram of an analysis add up to one.** -/
theorem AnalysisOf.pairTotal_root (h : AnalysisOf g parameters stop a) {t : Dendrogram ℚ}
    (ht : a.dendrogram = some t) : pairTotal (couplingBetween a.weights) t.classes = 1 := by
  rw [h.pairTotal_eq_sum ht]
  refine h.normalised.sum_eq_one fun hnone => ?_
  obtain ⟨x, hx⟩ := List.exists_mem_of_ne_nil _ t.classes_ne_nil
  rw [h.classes_eq ht, mem_classesIn, hnone] at hx
  simp at hx

end

/-- **Clustering and cutting use one similarity.** Over every table that holds each pair of
classes once, the average of a node that a cut compares with the threshold, times the number of
its pairs, is the sum over the node and the inner nodes below it of their couplings, each times
the number of pairs across its children. In an analysis of a call graph with `N` classes, two
at least, there is a dendrogram, and its root has the average `2 / (N * (N - 1))`. -/
theorem averagePairwise_eq_sum_couplings :
    (∀ {ν : Type} (counts : OrderedMap ClassPair ν) (weights : CouplingWeights ℚ)
      (stop : Nat → Bool), EachPairOnce weights → ∀ t,
      (Clusterer.ofTables counts weights stop).run.1.result = .ok (some t) →
      ∀ v ∈ t.nodes,
        averagePairwise v.classes weights * (v.classCount.choose 2 : ℕ) =
          (v.fusions.map Fusion.total).sum) ∧
    ∀ (g : CallGraph) (parameters : Parameters ℚ), 2 ≤ (classesIn (countCalls g)).length →
      (∃ a, (analyse g parameters fun _ => false).result = .ok a) ∧
      ∀ stop a, (analyse g parameters stop).result = .ok a →
        ∃ t, a.dendrogram = some t ∧ t.classCount = (classesIn (countCalls g)).length ∧
          averagePairwise t.classes a.weights = 2 / (t.classCount * (t.classCount - 1)) := by
  constructor
  · intro ν counts weights stop honce t ht v hv
    have hwf : t.WellFormed := (forest_of_run (by decide) ht).wellFormed t (by simp)
    rw [averagePairwise_classes_mul_choose]
    exact pairTotal_eq_sum_fusions (couplingBetween_comm honce) (hwf.of_mem_nodes hv) fun f hf =>
      coupling_eq_meanWeight_of_run honce ht f (fusions_subset_of_mem_nodes hv hf)
  · intro g parameters htwo
    refine ⟨exists_analysis g parameters, fun stop a ha => ?_⟩
    have h := analysisOf_of_analyse ha
    obtain ⟨t, ht⟩ := h.exists_dendrogram (List.ne_nil_of_length_pos (by omega))
    have hcount : t.classCount = (classesIn (countCalls g)).length := by
      rw [classCount, h.classes_eq ht]
    have htotal := averagePairwise_classes_mul_choose t a.weights
    rw [h.pairTotal_root ht] at htotal
    refine ⟨t, ht, hcount, ?_⟩
    have hpos : (1 : ℚ) < t.classCount := by exact_mod_cast hcount ▸ htwo
    rw [Nat.cast_choose_two] at htotal
    rw [eq_div_iff (mul_ne_zero (by linarith) (by linarith))]
    linarith

/-- A table holds the pair of `b` and `a` in falling order: the average of the root is made of
the couplings `1 / 8` over two pairs and `1 / 2` over one. A call graph with three classes has
a root with the average `1 / 3`. -/
theorem averagePairwise_eq_sum_couplings_of_three_classes :
    let counts : OrderedMap ClassPair Int := .ofList [(("b", "a"), 2), (("b", "c"), 1)]
    let weights : CouplingWeights ℚ := .ofList [(("b", "a"), 1 / 2), (("b", "c"), 1 / 4)]
    let run := (Clusterer.ofTables counts weights fun _ => false).run.1
    let ab : Dendrogram ℚ := node "cluster-001" (leaf "a" 0) (leaf "b" 0) (1 / 2) 1
    let t : Dendrogram ℚ := node "cluster-002" (leaf "c" 0) ab (1 / 8) 2
    let g : CallGraph := .ofList [("p.A.f", ["p.B.run", "p.C.run"])]
    EachPairOnce weights ∧ run.result = .ok (some t) ∧
      averagePairwise t.classes weights * (t.classCount.choose 2 : ℕ) =
        1 / 8 * 1 * 2 + 1 / 2 * 1 * 1 ∧
      (classesIn (countCalls g)).length = 3 ∧
      ∃ (a : Analysis ℚ) (root : Dendrogram ℚ),
        (analyse g .standard fun _ => false).result = .ok a ∧ a.dendrogram = some root ∧
        averagePairwise root.classes a.weights = 1 / 3 := by
  intro counts weights run ab t g
  have honce : EachPairOnce weights := by decide
  have hresult : run.result = .ok (some t) := by
    subst run t ab
    cbv
  have hclasses : (classesIn (countCalls g)).length = 3 := by cbv
  obtain ⟨htables, hgraphs⟩ := averagePairwise_eq_sum_couplings
  refine ⟨honce, hresult, ?_, hclasses, ?_⟩
  · have hlength : ab.classes.length = 2 := by
      subst ab
      cbv
    have hfusions : ab.fusions = [⟨ab.classes, ["a"], ["b"], 1 / 2⟩] := by simp [ab]
    rw [htables counts weights _ honce t hresult t (self_mem_nodes t)]
    simp [t, hfusions, hlength, Fusion.total]
  · obtain ⟨⟨a, ha⟩, hroot⟩ := hgraphs g .standard (by rw [hclasses]; decide)
    obtain ⟨root, hdendrogram, hcount, haverage⟩ := hroot _ a ha
    refine ⟨a, root, ha, hdendrogram, ?_⟩
    rw [haverage, hcount, hclasses]
    norm_num

end Linkage
