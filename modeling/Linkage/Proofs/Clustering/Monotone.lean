import Mathlib
import Linkage.Diagnostics.Basic
import Linkage.Proofs.Clustering.History

/-!
# Couplings never rise

Average linkage without rounding is monotone. The mean weight between a set and the union of
two others is a weighted mean of the means to the two, so it does not exceed their larger one.
A bound on all means therefore outlives every merge, and the coupling of a merge is such a
bound for the merges after it. No sign of the weights is assumed.

## Main results

* `ClassSets.pairwise_le_join`: a bound on the means outlives a merge.
* `ClassSets.History.coupling_le`: it bounds all couplings of a history.
* `ClassSets.History.pairwise_coupling`: the couplings of a history never rise.
* `run_couplings_never_rise`: neither do those of a run, or of a path from a node of its tree
  down.
-/

namespace Linkage

/-! ### Bounds on means -/

section Means

variable {w : String → String → ℚ} {a b s : List String} {M : ℚ}

/-- A mean weight is bounded when the whole weight is, by as much for each pair. -/
theorem meanWeight_le_iff (ha : a ≠ []) (hb : b ≠ []) :
    meanWeight w a b ≤ M ↔ totalWeight w a b ≤ M * ((a.length * b.length : ℕ) : ℚ) := by
  have hpos : (0 : ℚ) < ((a.length * b.length : ℕ) : ℚ) :=
    Nat.cast_pos.mpr (Nat.mul_pos (List.length_pos_iff.mpr ha) (List.length_pos_iff.mpr hb))
  exact div_le_iff₀ hpos

/-- A bound on the means to two sets bounds the mean to their union. -/
theorem meanWeight_append_le (hs : s ≠ []) (ha : a ≠ []) (hb : b ≠ [])
    (hsa : meanWeight w s a ≤ M) (hsb : meanWeight w s b ≤ M) : meanWeight w s (a ++ b) ≤ M := by
  rw [meanWeight_le_iff hs ha] at hsa
  rw [meanWeight_le_iff hs hb] at hsb
  rw [meanWeight_le_iff hs (by simp [ha]), totalWeight_append_right]
  calc totalWeight w s a + totalWeight w s b
      ≤ M * ((s.length * a.length : ℕ) : ℚ) + M * ((s.length * b.length : ℕ) : ℚ) :=
        add_le_add hsa hsb
    _ = M * ((s.length * (a ++ b).length : ℕ) : ℚ) := by
        rw [List.length_append]
        push_cast
        ring

end Means

namespace ClassSets

variable {w : String → String → ℚ} {sets rest : List (List String)} {fs : List Fusion} {M : ℚ}

/-- **A bound on the means outlives a merge.** -/
theorem pairwise_le_join (hw : ∀ x y, w x y = w y x) (hS : Separated sets) {a b : List String}
    (hab : (a, b) ∈ orderedPairs sets)
    (hM : sets.Pairwise fun x y => meanWeight w x y ≤ M) :
    (join sets a b).Pairwise fun x y => meanWeight w x y ≤ M := by
  obtain ⟨ha, hb⟩ := mem_of_mem_orderedPairs hab
  have hsplit := ((hS.perm_others hab).pairwise_iff fun {x y} h => by
    rwa [meanWeight_comm hw]).mp hM
  obtain ⟨hleft, hsplit⟩ := List.pairwise_cons.mp hsplit
  obtain ⟨hright, hothers⟩ := List.pairwise_cons.mp hsplit
  refine List.pairwise_append.mpr ⟨hothers, by simp, fun s hs u hu => ?_⟩
  obtain rfl := List.mem_singleton.mp hu
  rw [meanWeight_perm_right s (hS.union_perm hab)]
  refine meanWeight_append_le (hS.ne_nil s (List.mem_of_mem_filter hs)) (hS.ne_nil a ha)
    (hS.ne_nil b hb) ?_ ?_
  · rw [meanWeight_comm hw]
    exact hleft s (List.mem_cons_of_mem b hs)
  · rw [meanWeight_comm hw]
    exact hright s hs

/-- **A bound on the means bounds all couplings of a history.** Induction on the history: the
pair that is joined is one of the pairs, and the bound outlives the merge. -/
theorem History.coupling_le (hw : ∀ x y, w x y = w y x) (hH : History w sets fs rest)
    (hS : Separated sets) (hM : sets.Pairwise fun x y => meanWeight w x y ≤ M) :
    ∀ f ∈ fs, f.coupling ≤ M := by
  induction hH with
  | refl sets => simp
  | step hclosest _ ih =>
      have hab := mem_of_closest? hclosest
      intro f hf
      rcases List.mem_cons.mp hf with rfl | hf
      · exact rel_of_mem_orderedPairs hM hab
      · exact ih (hS.join hab) (pairwise_le_join hw hS hab hM) f hf

/-- **The couplings of a history never rise.** The coupling of a merge bounds all means, and so
the couplings of the merges after it. -/
theorem History.pairwise_coupling (hw : ∀ x y, w x y = w y x) (hH : History w sets fs rest)
    (hS : Separated sets) : fs.Pairwise fun f g => g.coupling ≤ f.coupling := by
  induction hH with
  | refl sets => exact List.Pairwise.nil
  | step hclosest hH ih =>
      have hab := mem_of_closest? hclosest
      have hbound := pairwise_le_join hw hS hab (pairwise_le_of_closest? hclosest)
      exact List.pairwise_cons.mpr
        ⟨hH.coupling_le hw (hS.join hab) hbound, ih (hS.join hab)⟩

end ClassSets

/-! ### Rises of a series -/

/-- A series that never rises has no rises. -/
theorem rises_eq_zero {series : List ℚ} (h : series.Pairwise fun x y => y ≤ x) :
    Series.rises series = 0 := by
  induction series with
  | nil => rfl
  | cons x rest ih =>
      obtain ⟨hx, hrest⟩ := List.pairwise_cons.mp h
      cases rest with
      | nil => rfl
      | cons y rest =>
          have hstep : ¬ 0 < y - x := not_lt.mpr (sub_nonpos.mpr (hx y (by simp)))
          rw [Series.rises, if_neg hstep, ih hrest]

namespace Dendrogram

variable {α : Type}

/-- The children of a node are nodes of the tree. -/
theorem mem_nodes_of_mem_children {t v u : Dendrogram α} (hv : v ∈ t.nodes)
    (hu : u ∈ v.children) : u ∈ t.nodes := by
  refine nodes_subset_of_mem_nodes hv ?_
  cases v with
  | leaf n c => simp [children] at hu
  | node n l r c k =>
      simp only [children, List.mem_cons, List.not_mem_nil, or_false] at hu
      rcases hu with rfl | rfl
      · simp [self_mem_nodes]
      · simp [self_mem_nodes]

/-- An inner node of a tree is one of its merges. -/
theorem mem_merges {t v : Dendrogram α} (hv : v ∈ t.nodes) (hinner : v.isLeaf = false) :
    (v.level, v.coupling) ∈ t.merges :=
  List.mem_map.mpr ⟨v, List.mem_filter.mpr ⟨hv, by simp [hinner]⟩, rfl⟩

/-- The coupling of a level is found in the series at the place before it. -/
theorem getElem?_of_mem_numbered {series : List α} {k : Nat} {c : α}
    (h : (k, c) ∈ numbered series) : ∃ i, k = i + 1 ∧ series[i]? = some c := by
  obtain ⟨i, hi, heq⟩ := List.mem_iff_getElem.mp h
  simp only [numbered, List.getElem_zip, List.getElem_range', Prod.mk.injEq] at heq
  obtain ⟨rfl, rfl⟩ := heq
  exact ⟨i, by omega, List.getElem?_eq_getElem _⟩

/-- In a series that never rises a later level has no larger coupling. -/
theorem le_of_mem_numbered {series : List ℚ} (h : series.Pairwise fun x y => y ≤ x) {j k : Nat}
    {c d : ℚ} (hc : (j, c) ∈ numbered series) (hd : (k, d) ∈ numbered series) (hjk : j < k) :
    d ≤ c := by
  obtain ⟨i, rfl, hi⟩ := getElem?_of_mem_numbered hc
  obtain ⟨i', rfl, hi'⟩ := getElem?_of_mem_numbered hd
  exact Cluster.rel_of_getElem? h (by omega) hi hi'

end Dendrogram

open Dendrogram

/-- **The couplings of a run never rise**, whatever the signs of the weights and whenever the
run is stopped. In the tree that a run returns no inner node has a larger coupling than an
inner child, and the diagnostics of an analysis with that tree count no rising merge. -/
theorem run_couplings_never_rise {ν : Type} (counts : OrderedMap ClassPair ν)
    (weights : CouplingWeights ℚ) (stop : Nat → Bool) :
    let run := (Clusterer.ofTables counts weights stop).run.1
    run.couplings.Pairwise (fun x y => y ≤ x) ∧ Series.rises run.couplings = 0 ∧
      ∀ t, run.result = .ok (some t) →
        (∀ v ∈ t.nodes, ∀ u ∈ v.children, u.isLeaf = false → v.coupling ≤ u.coupling) ∧
        ∀ a : Analysis ℚ, a.dendrogram = some t →
          a.mergeCouplings = run.couplings ∧ (Diagnostics.ofAnalysis a).nonMonotonicMerges = 0 := by
  intro run
  obtain ⟨fs, rest, hH, hcouplings, -⟩ := exists_history_of_run counts weights stop
  have hsets := ClassSets.separated_singletons (nodup_classesIn counts)
  have hnever : run.couplings.Pairwise fun x y => y ≤ x := by
    rw [show run.couplings = fs.map Fusion.coupling from hcouplings, List.pairwise_map]
    exact hH.pairwise_coupling (coupling_ofTables_comm counts weights stop) hsets
  refine ⟨hnever, rises_eq_zero hnever, fun t ht => ?_⟩
  have hz : ((0 : ℚ) == 0) = true := by decide
  have hF := forest_of_run hz ht
  have hmerges : t.merges.Perm (numbered run.couplings) := by simpa using hF.merges
  refine ⟨fun v hv u hu hinner => ?_, fun a ha => ?_⟩
  · cases v with
    | leaf n c => simp [children] at hu
    | node n l r c k =>
        obtain ⟨-, hl, hr, -⟩ := hF.grown t (by simp) _ hv l r rfl
        have hlevel : u.level < (node n l r c k).level := by
          simp only [children, List.mem_cons, List.not_mem_nil, or_false] at hu
          rcases hu with rfl | rfl
          · exact hl
          · exact hr
        have hu' := mem_merges (mem_nodes_of_mem_children hv hu) hinner
        exact le_of_mem_numbered hnever (hmerges.mem_iff.mp hu')
          (hmerges.mem_iff.mp (mem_merges hv rfl)) hlevel
  · have hseries : a.mergeCouplings = run.couplings := by
      rw [Analysis.mergeCouplings, ha]
      exact mergeCouplings_of_perm hmerges
    refine ⟨hseries, ?_⟩
    rw [show (Diagnostics.ofAnalysis a).nonMonotonicMerges = Series.rises a.mergeCouplings from rfl,
      hseries]
    exact rises_eq_zero hnever

/-- One weight of the table is negative: the couplings `3 / 4` and `-1 / 8` do not rise, and
the root has no larger coupling than its inner child. -/
theorem run_couplings_never_rise_of_negative_weight :
    let counts : OrderedMap ClassPair Int := .ofList [(("b", "c"), 1), (("a", "c"), 3)]
    let weights : CouplingWeights ℚ := .ofList [(("b", "c"), -1 / 4), (("a", "c"), 3 / 4)]
    let run := (Clusterer.ofTables counts weights fun _ => false).run.1
    let ac : Dendrogram ℚ := node "cluster-001" (leaf "a" 0) (leaf "c" 0) (3 / 4) 1
    let t : Dendrogram ℚ := node "cluster-002" (leaf "b" 0) ac (-1 / 8) 2
    run.result = .ok (some t) ∧ Series.rises run.couplings = 0 ∧ t.coupling ≤ ac.coupling := by
  intro counts weights run ac t
  have hresult : run.result = .ok (some t) := by
    subst run t ac
    cbv
  obtain ⟨-, hrises, htree⟩ := run_couplings_never_rise counts weights fun _ => false
  exact ⟨hresult, hrises,
    (htree t hresult).1 t (by simp [t]) ac (by simp [t, children]) rfl⟩

end Linkage
