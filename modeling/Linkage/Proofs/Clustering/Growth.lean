import Mathlib
import Linkage.Proofs.Clustering.Forest
import Linkage.Proofs.Clustering.WeightMatrix

/-!
# The tree of a run

A run starts from the forest of single classes and keeps the forest at every merge, so it ends
with one tree over all classes unless it is stopped. The constructor of trees is asked at every
merge and never refuses: the two trees share no class, the level is positive and the name is
not empty.

## Main results

* `mergeStep?_of_forest`: in a forest the union of two trees is never refused.
* `mergeLoop_succ_of_forest`: a merge that is not stopped goes on from a forest.
* `mergeLoop_of_forest`: merges that are not stopped end in a forest of one tree.
* `forest_of_run`: a tree that a run returns is a forest over the classes of its table.
* `run_grows_one_tree`: the tree of a run over a table, with its leaves, its levels, the order
  of creation of its nodes, and the couplings that are read back from it.
-/

namespace Linkage

open Dendrogram Cluster

variable {α : Type} [Scalar α]

/-! ### One merge -/

/-- In a forest, two clusters at positions in order and in range are joined, and nothing is
refused. -/
theorem mergeStep?_of_forest {classes : List String} {series : List α}
    {clusters : List (Cluster α)} (hF : Forest classes series (clusters.map tree))
    (hnd : classes.Nodup) {made : Nat} (hmade : series.length = made) {c : Candidate α}
    (hlt : c.first < c.second) (hrange : c.second < clusters.length) :
    ∃ a b, clusters[c.first]? = some a ∧ clusters[c.second]? = some b ∧
      mergeStep? (made + 1) clusters c = .ok
        (.merged (made + 1) a.tree.name b.tree.name c.coupling (clusters.length - 1),
          join clusters c.first c.second
            (node (clusterName (made + 1 : Nat)) a.tree b.tree c.coupling (made + 1))
            (a.size + b.size)) := by
  subst hmade
  have ha : clusters[c.first]? = some clusters[c.first] :=
    List.getElem?_eq_getElem (hlt.trans hrange)
  have hb : clusters[c.second]? = some clusters[c.second] := List.getElem?_eq_getElem hrange
  refine ⟨_, _, ha, hb, ?_⟩
  have hunion : merge? (clusterName (series.length + 1 : Nat)) clusters[c.first].tree
      clusters[c.second].tree c.coupling (series.length + 1 : Nat) =
        .ok (node (clusterName (series.length + 1 : Nat)) clusters[c.first].tree
          clusters[c.second].tree c.coupling (series.length + 1)) := by
    refine merge?_eq_ok_iff.mpr ⟨by simp [clusterName], by omega, ?_, rfl⟩
    exact hF.disjoint hnd hlt (by rw [List.getElem?_map, ha]; rfl)
      (by rw [List.getElem?_map, hb]; rfl)
  simp only [mergeStep?, ha, hb, hunion]
  rfl

/-- Joining a pair of clusters joins their trees. -/
theorem Forest.join_clusters {classes : List String} {series : List α}
    {clusters : List (Cluster α)} (hF : Forest classes series (clusters.map tree))
    (hnd : classes.Nodup) {made : Nat} (hmade : series.length = made) {i j : Nat}
    {a b : Cluster α} (hij : i < j) (ha : clusters[i]? = some a) (hb : clusters[j]? = some b)
    (c : α) (size : Nat) :
    Forest classes (series ++ [c]) ((Cluster.join clusters i j
      (node (clusterName (made + 1 : Nat)) a.tree b.tree c (made + 1)) size).map tree) := by
  subst hmade
  rw [map_tree_join]
  exact hF.join hnd hij (by rw [List.getElem?_map, ha]; rfl) (by rw [List.getElem?_map, hb]; rfl) c

/-! ### All merges -/

section Merges

variable {stop : Nat → Bool} {classes : List String} {series : List α} {made : Nat}
  {clusters : List (Cluster α)}

/-- **A merge that is not stopped**: among two clusters at least a pair is found, its union is
not refused, and the merges go on from the forest with one tree less. The merge does not depend
on the answers. -/
theorem mergeLoop_succ_of_forest (hnd : classes.Nodup) {left : Nat} (hmade : series.length = made)
    (hF : Forest classes series (clusters.map tree)) (hA : Aligned clusters)
    (hlen : clusters.length = left + 2) :
    ∃ (c : α) (event : Event α) (next : List (Cluster α)),
      (∀ stop : Nat → Bool, stop (made + 1) = false →
        mergeLoop stop (left + 1) made clusters =
          (mergeLoop stop left (made + 1) next).after c event) ∧
      Forest classes (series ++ [c]) (next.map tree) ∧ Aligned next ∧
      next.length = left + 1 := by
  obtain ⟨c, hc, hlt, hrange⟩ := closest?_of_aligned hA (by omega)
  obtain ⟨a, b, ha, hb, hstep⟩ := mergeStep?_of_forest hF hnd hmade hlt hrange
  have hnext := hF.join_clusters hnd hmade hlt ha hb c.coupling (a.size + b.size)
  have hrest := length_join hlt hrange
    (node (clusterName (made + 1 : Nat)) a.tree b.tree c.coupling (made + 1)) (a.size + b.size)
  have hloop : ∀ stop : Nat → Bool, stop (made + 1) = false →
      mergeLoop stop (left + 1) made clusters =
        (mergeLoop stop left (made + 1) (join clusters c.first c.second
          (node (clusterName (made + 1 : Nat)) a.tree b.tree c.coupling (made + 1))
          (a.size + b.size))).after c.coupling
          (.merged (made + 1) a.tree.name b.tree.name c.coupling (clusters.length - 1)) := by
    intro stop hgo
    simp only [mergeLoop, hgo, Bool.false_eq_true, if_false, hc, hstep]
  exact ⟨_, _, _, hloop, hnext, hA.join hlt hrange _ _, by omega⟩

/-- **Merges that are not stopped end in one tree.** Induction on the number of merges
left, with the forest as the invariant: the series read off the tree is the one that the
run records. -/
theorem mergeLoop_of_forest (hnd : classes.Nodup) (left : Nat) (hmade : series.length = made)
    (hF : Forest classes series (clusters.map tree)) (hA : Aligned clusters)
    (hlen : clusters.length = left + 1)
    (hgo : ∀ k, made < k → k ≤ made + left → stop k = false) :
    ∃ t, (mergeLoop stop left made clusters).result = .ok (some t) ∧
      Forest classes (series ++ (mergeLoop stop left made clusters).couplings) [t] := by
  induction left generalizing made series clusters with
  | zero =>
      obtain ⟨c, rfl⟩ := List.length_eq_one_iff.mp hlen
      refine ⟨c.tree, rfl, ?_⟩
      simpa [mergeLoop, MergeRun.complete] using hF
  | succ left ih =>
      obtain ⟨c, event, next, hloop, hnext, hA', hlen'⟩ :=
        mergeLoop_succ_of_forest hnd hmade hF hA hlen
      have hmade' : (series ++ [c]).length = made + 1 := by simp [hmade]
      obtain ⟨t, hresult, hend⟩ := ih hmade' hnext hA' hlen'
        fun k hk hk' => hgo k (by omega) (by omega)
      rw [hloop stop (hgo (made + 1) (by omega) (by omega))]
      refine ⟨t, hresult, ?_⟩
      simpa [MergeRun.after] using hend

/-- Merges that come to an end were never told to stop. -/
theorem go_of_mergeLoop_eq_ok (hnd : classes.Nodup) (left : Nat) (hmade : series.length = made)
    (hF : Forest classes series (clusters.map tree)) (hA : Aligned clusters)
    (hlen : clusters.length = left + 1) {root : Option (Dendrogram α)}
    (hok : (mergeLoop stop left made clusters).result = .ok root) :
    ∀ k, made < k → k ≤ made + left → stop k = false := by
  induction left generalizing made series clusters with
  | zero =>
      intro k hk hk'
      omega
  | succ left ih =>
      cases hstop : stop (made + 1) with
      | true => simp [mergeLoop, hstop, MergeRun.halted] at hok
      | false =>
          obtain ⟨c, event, next, hloop, hnext, hA', hlen'⟩ :=
            mergeLoop_succ_of_forest hnd hmade hF hA hlen
          rw [hloop stop hstop] at hok
          have hmade' : (series ++ [c]).length = made + 1 := by simp [hmade]
          have hlater := ih hmade' hnext hA' hlen' hok
          intro k hk hk'
          rcases eq_or_lt_of_le (Nat.succ_le_of_lt hk) with rfl | hk
          · exact hstop
          · exact hlater k hk (by omega)

end Merges

/-! ### Runs over a table -/

/-- The clusters of single classes are built from classes with names, whatever the weights. -/
theorem singletons?_eq_ok {classes : List String} (hne : ∀ x ∈ classes, x ≠ "")
    (hz : ((0 : α) == 0) = true) (matrix : List (List α)) :
    singletons? classes matrix = .ok ((classes.zip matrix).map fun e => ⟨leaf e.1 0, 1, e.2⟩) := by
  unfold singletons?
  induction classes generalizing matrix with
  | nil => rfl
  | cons x rest ih =>
      cases matrix with
      | nil => rfl
      | cons row rows =>
          have hx : (ofClass? x : Except DendrogramError (Dendrogram α)) = .ok (leaf x 0) :=
            make?_leaf_eq_ok_iff.mpr ⟨hne x (by simp), rfl, hz, rfl⟩
          have hrest := ih (fun y hy => hne y (by simp [hy])) rows
          rw [List.zip_cons_cons, List.mapM_cons]
          simp only [hx, hrest, List.map_cons]
          rfl

/-- A class without a name is refused, whatever the weights. -/
theorem singletons?_eq_error {classes : List String} (hempty : "" ∈ classes)
    (hz : ((0 : α) == 0) = true) {matrix : List (List α)}
    (hlen : classes.length ≤ matrix.length) :
    singletons? classes matrix = .error .emptyName := by
  unfold singletons?
  induction classes generalizing matrix with
  | nil => cases hempty
  | cons x rest ih =>
      cases matrix with
      | nil => simp at hlen
      | cons row rows =>
          rw [List.zip_cons_cons, List.mapM_cons]
          by_cases hx : x = ""
          · subst hx
            rfl
          · have hleaf : (ofClass? x : Except DendrogramError (Dendrogram α)) = .ok (leaf x 0) :=
              make?_leaf_eq_ok_iff.mpr ⟨hx, rfl, hz, rfl⟩
            have hrest := ih ((List.mem_cons.mp hempty).resolve_left (Ne.symm hx))
              (Nat.le_of_succ_le_succ hlen)
            simp only [hleaf, hrest]
            rfl

/-- The clusters of single classes with the weights of a table. -/
def singleClusters (classes : List String) (weights : CouplingWeights α) : List (Cluster α) :=
  (classes.zip (weightMatrix classes weights)).map fun e => ⟨leaf e.1 0, 1, e.2⟩

/-- There are as many clusters as classes. -/
theorem length_singleClusters (classes : List String) (weights : CouplingWeights α) :
    (singleClusters classes weights).length = classes.length := by
  simp [singleClusters, length_weightMatrix]

/-- The trees of the clusters are the leaves of the classes. -/
theorem map_tree_singleClusters (classes : List String) (weights : CouplingWeights α) :
    (singleClusters classes weights).map tree = classes.map fun x => leaf x 0 := by
  have hlen : classes.length ≤ (weightMatrix classes weights).length := by
    rw [length_weightMatrix]
  calc (singleClusters classes weights).map tree
      = ((classes.zip (weightMatrix classes weights)).map Prod.fst).map fun x => leaf x 0 := by
        rw [singleClusters, List.map_map, List.map_map]
        rfl
    _ = classes.map fun x => leaf x 0 := by rw [List.map_fst_zip hlen]

/-- The clusters of single classes are a forest without merges. -/
theorem forest_singleClusters {classes : List String} (hlt : classes.Pairwise (· < ·))
    (hne : ∀ x ∈ classes, x ≠ "") (hz : ((0 : α) == 0) = true) (weights : CouplingWeights α) :
    Forest classes ([] : List α) ((singleClusters classes weights).map tree) := by
  rw [map_tree_singleClusters]
  exact .singletons hlt hne hz

/-- Every cluster has a coupling with each of the clusters. -/
theorem aligned_singleClusters (classes : List String) (weights : CouplingWeights α) :
    Aligned (singleClusters classes weights) := by
  intro c hc
  obtain ⟨e, he, rfl⟩ := List.mem_map.mp hc
  rw [length_singleClusters]
  exact length_of_mem_weightMatrix (List.of_mem_zip he).2

/-- A table has the classes of its pairs. -/
theorem mem_classesIn {ν : Type} {table : OrderedMap ClassPair ν} {x : String} :
    x ∈ classesIn table ↔ ∃ p ∈ table.keys, x = p.1 ∨ x = p.2 := by
  simp [classesIn, Text.mem_members]

/-- The first class of a stored pair is a class of the table. -/
theorem left_mem_classesIn {ν : Type} {table : OrderedMap ClassPair ν} {a b : String}
    (h : (a, b) ∈ table.keys) : a ∈ classesIn table :=
  mem_classesIn.mpr ⟨_, h, .inl rfl⟩

/-- The second class of a stored pair is a class of the table. -/
theorem right_mem_classesIn {ν : Type} {table : OrderedMap ClassPair ν} {a b : String}
    (h : (a, b) ∈ table.keys) : b ∈ classesIn table :=
  mem_classesIn.mpr ⟨_, h, .inr rfl⟩

/-- The classes of a table are in increasing order. -/
theorem pairwise_classesIn {ν : Type} (counts : OrderedMap ClassPair ν) :
    (classesIn counts).Pairwise (· < ·) :=
  Text.pairwise_members _

/-- The classes of a table are listed once each. -/
theorem nodup_classesIn {ν : Type} (counts : OrderedMap ClassPair ν) :
    (classesIn counts).Nodup :=
  Text.nodup_members _

/-- The classes of a table without empty names have no empty name. -/
theorem ne_empty_of_mem_classesIn {ν : Type} {counts : OrderedMap ClassPair ν}
    (hnames : ∀ p ∈ counts.keys, p.1 ≠ "" ∧ p.2 ≠ "") : ∀ x ∈ classesIn counts, x ≠ "" := by
  intro x hx
  obtain ⟨p, hp, hxp⟩ := List.mem_flatMap.mp (Text.mem_members.mp hx)
  simp only [List.mem_cons, List.not_mem_nil, or_false] at hxp
  rcases hxp with rfl | rfl
  · exact (hnames p hp).1
  · exact (hnames p hp).2

/-- A run over a table with classes makes its merges among the single classes. -/
theorem run_ofTables {ν : Type} {counts : OrderedMap ClassPair ν} (weights : CouplingWeights α)
    (stop : Nat → Bool) (hne : ∀ x ∈ classesIn counts, x ≠ "") (hz : ((0 : α) == 0) = true)
    (hsome : classesIn counts ≠ []) :
    let merged := mergeLoop stop ((classesIn counts).length - 1) 0
      (singleClusters (classesIn counts) weights)
    (Clusterer.ofTables counts weights stop).run.1 =
      { merged with events := .clustering (classesIn counts).length :: merged.events } := by
  simp only [Clusterer.run, Clusterer.ofTables, runMerges, List.isEmpty_iff, hsome, if_false,
    singletons?_eq_ok hne hz, Nat.zero_add]
  rfl

/-- A run over a table that names a class by the empty name is refused at once. -/
theorem run_of_empty_name {ν : Type} {counts : OrderedMap ClassPair ν}
    (weights : CouplingWeights α) (stop : Nat → Bool) (hempty : "" ∈ classesIn counts)
    (hz : ((0 : α) == 0) = true) :
    let run := (Clusterer.ofTables counts weights stop).run.1
    run.result = .error (.refused .emptyName) ∧ run.couplings = [] := by
  have hsome : classesIn counts ≠ [] := List.ne_nil_of_mem hempty
  have herror := singletons?_eq_error hempty hz
    (le_of_eq (length_weightMatrix (classesIn counts) weights).symm)
  simp only [Clusterer.run, Clusterer.ofTables, runMerges, List.isEmpty_iff, hsome, if_false,
    herror]
  exact ⟨rfl, rfl⟩

/-- A run over a table without classes ends without a tree. -/
theorem run_of_no_classes {ν : Type} {counts : OrderedMap ClassPair ν}
    (weights : CouplingWeights α) (stop : Nat → Bool) (hnone : classesIn counts = []) :
    let run := (Clusterer.ofTables counts weights stop).run.1
    run.result = .ok none ∧ run.couplings = [] := by
  simp [Clusterer.run, Clusterer.ofTables, runMerges, hnone]

/-- A run over a table that is not stopped ends in one tree over its classes. -/
theorem run_forest {ν : Type} {counts : OrderedMap ClassPair ν} (weights : CouplingWeights α)
    {stop : Nat → Bool} (hne : ∀ x ∈ classesIn counts, x ≠ "") (hz : ((0 : α) == 0) = true)
    (hsome : classesIn counts ≠ [])
    (hgo : ∀ k, 0 < k → k < (classesIn counts).length → stop k = false) :
    ∃ t, (Clusterer.ofTables counts weights stop).run.1.result = .ok (some t) ∧
      Forest (classesIn counts) (Clusterer.ofTables counts weights stop).run.1.couplings [t] := by
  have hpos : 0 < (classesIn counts).length := List.length_pos_iff.mpr hsome
  rw [run_ofTables weights stop hne hz hsome]
  have hmade : ([] : List α).length = 0 := rfl
  refine mergeLoop_of_forest (nodup_classesIn counts) _ hmade
    (forest_singleClusters (pairwise_classesIn counts) hne hz weights)
    (aligned_singleClusters _ _) ?_ fun k hk hk' => hgo k hk (by omega)
  rw [length_singleClusters]
  omega

/-- A dendrogram is built, or there are no classes, exactly when no class has the
empty name. -/
theorem exists_buildDendrogram_iff {ν : Type} {counts : OrderedMap ClassPair ν}
    {weights : CouplingWeights α} (hz : ((0 : α) == 0) = true) :
    (∃ root, buildDendrogram counts weights = .ok root) ↔ ∀ x ∈ classesIn counts, x ≠ "" := by
  constructor
  · rintro ⟨root, hroot⟩ x hx rfl
    rw [buildDendrogram, (run_of_empty_name weights _ hx hz).1] at hroot
    cases hroot
  · intro hne
    by_cases hnone : classesIn counts = []
    · exact ⟨none, (run_of_no_classes weights _ hnone).1⟩
    · obtain ⟨t, ht, -⟩ := run_forest weights hne hz hnone fun _ _ _ => rfl
      exact ⟨some t, ht⟩

/-- A table whose run returns a tree has classes, and no class with the empty name. -/
theorem names_of_run {ν : Type} {counts : OrderedMap ClassPair ν} {weights : CouplingWeights α}
    {stop : Nat → Bool} (hz : ((0 : α) == 0) = true) {t : Dendrogram α}
    (ht : (Clusterer.ofTables counts weights stop).run.1.result = .ok (some t)) :
    classesIn counts ≠ [] ∧ ∀ x ∈ classesIn counts, x ≠ "" := by
  refine ⟨fun hnone => ?_, fun x hx hempty => ?_⟩
  · rw [(run_of_no_classes weights stop hnone).1] at ht
    cases ht
  · rw [(run_of_empty_name weights stop (hempty ▸ hx) hz).1] at ht
    cases ht

/-- **A run over a table that returns a tree** was not told to stop, and has grown that tree as
a forest over its classes. -/
theorem forest_of_run {ν : Type} {counts : OrderedMap ClassPair ν} {weights : CouplingWeights α}
    {stop : Nat → Bool} (hz : ((0 : α) == 0) = true) {t : Dendrogram α}
    (ht : (Clusterer.ofTables counts weights stop).run.1.result = .ok (some t)) :
    Forest (classesIn counts) (Clusterer.ofTables counts weights stop).run.1.couplings [t] := by
  obtain ⟨hsome, hne⟩ := names_of_run hz ht
  have hpos : 0 < (classesIn counts).length := List.length_pos_iff.mpr hsome
  have hlen : (singleClusters (classesIn counts) weights).length =
      (classesIn counts).length - 1 + 1 := by
    rw [length_singleClusters]
    omega
  have hloop : (mergeLoop stop ((classesIn counts).length - 1) 0
      (singleClusters (classesIn counts) weights)).result = .ok (some t) := by
    rw [run_ofTables weights stop hne hz hsome] at ht
    exact ht
  have hmade : ([] : List α).length = 0 := rfl
  have hgo := go_of_mergeLoop_eq_ok (nodup_classesIn counts) _ hmade
    (forest_singleClusters (pairwise_classesIn counts) hne hz weights)
    (aligned_singleClusters _ weights) hlen hloop
  obtain ⟨t', ht', hF⟩ :=
    run_forest weights hne hz hsome fun k hk hk' => hgo k hk (by omega)
  rw [ht'] at ht
  cases ht
  exact hF

/-- The tree that a run returns has the classes of its table. -/
theorem classes_of_run {ν : Type} {counts : OrderedMap ClassPair ν} {weights : CouplingWeights α}
    {stop : Nat → Bool} (hz : ((0 : α) == 0) = true) {t : Dendrogram α}
    (ht : (Clusterer.ofTables counts weights stop).run.1.result = .ok (some t)) :
    t.classes = classesIn counts := by
  have hleaves : (t.leaves.map name).Perm (classesIn counts) := by
    simpa using (forest_of_run hz ht).leaves
  exact Text.eq_of_pairwise_lt t.pairwise_classes (pairwise_classesIn counts) fun x =>
    mem_classes.trans hleaves.mem_iff

/-- **A run that is not stopped grows one tree over all classes**, whatever the weights are.
Its leaves are the classes, each once. It has one inner node for each level below the number of
classes, named after its level; children have lower levels, and left ones were created first.
The couplings read back from the tree by level are those that the run recorded. Without classes
there is no tree. -/
theorem run_grows_one_tree {ν : Type} (counts : OrderedMap ClassPair ν)
    (weights : CouplingWeights Float) (stop : Nat → Bool)
    (hnames : ∀ p ∈ counts.keys, p.1 ≠ "" ∧ p.2 ≠ "")
    (hgo : ∀ k, 0 < k → k < (classesIn counts).length → stop k = false) :
    let classes := classesIn counts
    let run := (Clusterer.ofTables counts weights stop).run.1
    (classes = [] → run.result = .ok none ∧ run.couplings = []) ∧
    (classes ≠ [] → ∃ t, run.result = .ok (some t) ∧
      classes.Nodup ∧ (t.leaves.map name).Perm classes ∧ t.classes = classes ∧
      (t.inner.map level).Perm (List.range' 1 (classes.length - 1)) ∧
      (∀ v ∈ t.nodes, ∀ l r, v.children = [l, r] →
        v.name = clusterName v.level ∧ l.level < v.level ∧ r.level < v.level ∧
          CreatedBefore l r) ∧
      t.mergeCouplings = run.couplings) := by
  intro classes run
  refine ⟨fun hnone => ?_, fun hsome => ?_⟩
  · have hempty : (classesIn counts).isEmpty = true := List.isEmpty_iff.mpr hnone
    simp [run, Clusterer.run, Clusterer.ofTables, runMerges, hempty]
  · have hz : ((0 : Float) == 0) = true := by decide
    obtain ⟨t, hresult, hF⟩ :=
      run_forest weights (ne_empty_of_mem_classesIn hnames) hz hsome hgo
    have hmerges : t.merges.Perm (numbered run.couplings) := by
      simpa using hF.merges
    have hleaves : (t.leaves.map name).Perm classes := by
      simpa using hF.leaves
    have hwf : t.WellFormed := hF.wellFormed t (by simp)
    have hcount : run.couplings.length = classes.length - 1 := by
      have hinner := hmerges.length_eq
      have hleaf := hleaves.length_eq
      have htree := t.length_leaves
      simp only [Dendrogram.merges, List.length_map, numbered, List.length_zip,
        List.length_range', min_self] at hinner hleaf
      omega
    refine ⟨t, hresult, nodup_classesIn counts, hleaves, ?_, ?_, ?_, mergeCouplings_of_perm hmerges⟩
    · exact Text.eq_of_pairwise_lt t.pairwise_classes (pairwise_classesIn counts) fun x =>
        mem_classes.trans hleaves.mem_iff
    · have hfst := hmerges.map Prod.fst
      rw [numbered, List.map_fst_zip (by simp), hcount] at hfst
      simpa [Dendrogram.merges, Function.comp_def] using hfst
    · exact hF.grown t (by simp)

/-- One weight of the table is undefined and the other unbounded, and the run still grows a
tree over the three classes. -/
theorem run_grows_one_tree_of_undefined_weight :
    let counts : OrderedMap ClassPair Nat := .ofList [(("b", "c"), 1), (("a", "c"), 2)]
    let weights : CouplingWeights Float := .ofList [(("b", "c"), 0 / 0), (("a", "c"), 1 / 0)]
    let run := (Clusterer.ofTables counts weights fun _ => false).run.1
    (∀ p ∈ counts.keys, p.1 ≠ "" ∧ p.2 ≠ "") ∧
      ∃ t, run.result = .ok (some t) ∧ (t.leaves.map name).Perm ["a", "b", "c"] ∧
        (t.inner.map level).Perm [1, 2] ∧ t.mergeCouplings = run.couplings := by
  intro counts weights run
  have hclasses : classesIn counts = ["a", "b", "c"] := by cbv
  have hnames : ∀ p ∈ counts.keys, p.1 ≠ "" ∧ p.2 ≠ "" := by decide
  refine ⟨hnames, ?_⟩
  obtain ⟨t, hresult, -, hleaves, -, hlevels, -, hseries⟩ :=
    (run_grows_one_tree counts weights (fun _ => false) hnames fun _ _ _ => rfl).2
      (by rw [hclasses]; simp)
  rw [hclasses] at hleaves hlevels
  exact ⟨t, hresult, hleaves, hlevels, hseries⟩

end Linkage
