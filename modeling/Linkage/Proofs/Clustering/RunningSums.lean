import Mathlib
import Linkage.Proofs.Clustering.Growth
import Linkage.Proofs.Clustering.Recomputation

/-!
# Running sums are recomputed sums

A run never looks at the classes of its clusters again: it drops two rows of summed weights,
adds them up, and appends the sum as the row of the union. In exact arithmetic these rows stay
what recomputation would give. The invariant is `Tracks w clusters`: every cluster knows the
number of its classes, and its links are the totals of `w` across its tree and the tree of each
active cluster.

## Main results

* `closest?_eq_recomputed`: under the invariant both procedures choose the same pair.
* `Tracks.join`: dropping, adding and appending rows keeps the invariant.
* `mergeLoop_eq_recomputed`: the merges of both procedures are the same, also when they are
  stopped.
* `run_eq_recomputed`: a run over a table is a run of the recomputing procedure, and every
  inner node of its tree carries the coupling of its two children.
-/

namespace Linkage

open Dendrogram Cluster

/-! ### The first largest pair -/

/-- A candidate is replaced by a later one only when that has a larger coupling. -/
theorem better_eq (c d : Candidate ℚ) :
    c.better d = if d.coupling ≤ c.coupling then c else d := by
  simp [Candidate.better, Scalar.isUndefined]

/-- A pair is the **first largest** of a list: earlier pairs are strictly smaller, later ones
are no larger. -/
def FirstLargest (best : Candidate ℚ) (cs : List (Candidate ℚ)) : Prop :=
  ∃ earlier later, cs = earlier ++ best :: later ∧
    (∀ d ∈ earlier, d.coupling < best.coupling) ∧ ∀ d ∈ later, d.coupling ≤ best.coupling

/-- No candidate has a larger coupling than the first largest one. -/
theorem FirstLargest.le {best : Candidate ℚ} {cs : List (Candidate ℚ)} (h : FirstLargest best cs)
    {d : Candidate ℚ} (hd : d ∈ cs) : d.coupling ≤ best.coupling := by
  obtain ⟨earlier, later, rfl, hlt, hle⟩ := h
  rcases List.mem_append.mp hd with hd | hd
  · exact le_of_lt (hlt d hd)
  · rcases List.mem_cons.mp hd with rfl | hd
    · exact le_refl _
    · exact hle d hd

/-- A smaller pair in front does not change the first largest. -/
theorem FirstLargest.cons_of_lt {best c : Candidate ℚ} {cs : List (Candidate ℚ)}
    (h : FirstLargest best cs) (hc : c.coupling < best.coupling) : FirstLargest best (c :: cs) := by
  obtain ⟨earlier, later, rfl, hlt, hle⟩ := h
  refine ⟨c :: earlier, later, rfl, fun d hd => ?_, hle⟩
  rcases List.mem_cons.mp hd with rfl | hd
  · exact hc
  · exact hlt d hd

/-- A pair that is no larger than the pair before it is not the first largest. -/
theorem FirstLargest.insert_of_le {best c d : Candidate ℚ} {cs : List (Candidate ℚ)}
    (h : FirstLargest best (c :: cs)) (hdc : d.coupling ≤ c.coupling) :
    FirstLargest best (c :: d :: cs) := by
  obtain ⟨earlier, later, hsplit, hlt, hle⟩ := h
  cases earlier with
  | nil =>
      obtain ⟨rfl, rfl⟩ := List.cons.inj hsplit
      refine ⟨[], d :: cs, rfl, by simp, fun e he => ?_⟩
      rcases List.mem_cons.mp he with rfl | he
      · exact hdc
      · exact hle e he
  | cons e earlier =>
      obtain ⟨rfl, hrest⟩ := List.cons.inj hsplit
      have hc : c.coupling < best.coupling := hlt c List.mem_cons_self
      have hcs : FirstLargest best cs :=
        ⟨earlier, later, hrest, fun e he => hlt e (List.mem_cons_of_mem c he), hle⟩
      exact (hcs.cons_of_lt (lt_of_le_of_lt hdc hc)).cons_of_lt hc

/-- Choosing the better pair along a list yields its first largest. -/
theorem firstLargest_foldl_better (rest : List (Candidate ℚ)) (c : Candidate ℚ) :
    FirstLargest (rest.foldl Candidate.better c) (c :: rest) := by
  induction rest generalizing c with
  | nil => exact ⟨[], [], rfl, by simp, by simp⟩
  | cons d rest ih =>
      rw [List.foldl_cons, better_eq]
      by_cases hdc : d.coupling ≤ c.coupling
      · rw [if_pos hdc]
        exact (ih c).insert_of_le hdc
      · rw [if_neg hdc]
        have hd : d.coupling ≤ (rest.foldl Candidate.better d).coupling :=
          (ih d).le List.mem_cons_self
        exact (ih d).cons_of_lt (lt_of_lt_of_le (not_le.mp hdc) hd)

/-- The pair that a run chooses is the first one that no pair exceeds. -/
theorem closest?_eq_find? (clusters : List (Cluster ℚ)) :
    closest? clusters = (candidates clusters).find? fun c =>
      (candidates clusters).all fun d => decide (d.coupling ≤ c.coupling) := by
  unfold closest?
  cases hcands : candidates clusters with
  | nil => rfl
  | cons c rest =>
      obtain ⟨earlier, later, hsplit, hlt, -⟩ := firstLargest_foldl_better rest c
      symm
      rw [List.find?_eq_some_iff_append]
      refine ⟨?_, earlier, later, hsplit, fun d hd => ?_⟩
      · rw [List.all_eq_true]
        exact fun d hd => decide_eq_true ((firstLargest_foldl_better rest c).le hd)
      · rw [Bool.not_eq_true', List.all_eq_false]
        refine ⟨rest.foldl Candidate.better c, ?_, by simpa using hlt d hd⟩
        rw [hsplit]
        simp

/-! ### The invariant of the running sums -/

section Tracking

variable (w : String → String → ℚ)

/-- The summed weight that a row holds for a pair of trees: the total across their classes, and
zero for a tree and itself. -/
def link (a b : Dendrogram ℚ) : ℚ :=
  if a.classes = b.classes then 0 else totalWeight w a.classes b.classes

/-- The running sums of clusters **track** a weight. -/
structure Tracks (clusters : List (Cluster ℚ)) : Prop where
  /-- A cluster knows the number of its classes. -/
  size : ∀ c ∈ clusters, c.size = c.tree.classCount
  /-- The links of a cluster are the totals across its tree and each active tree. -/
  links : ∀ c ∈ clusters, c.links = clusters.map fun d => link w c.tree d.tree

end Tracking

variable {w : String → String → ℚ}

/-- Trees without a common class have different lists of classes. -/
theorem ne_classes_of_disjoint {a b : Dendrogram ℚ} (h : a.classes.Disjoint b.classes) :
    a.classes ≠ b.classes := by
  obtain ⟨x, hx⟩ := List.exists_mem_of_ne_nil _ a.classes_ne_nil
  exact fun heq => h hx (heq ▸ hx)

/-- The sum kept between trees without a common class is the weight between their classes. -/
theorem link_of_disjoint {a b : Dendrogram ℚ} (h : a.classes.Disjoint b.classes) :
    link w a b = totalWeight w a.classes b.classes :=
  if_neg (ne_classes_of_disjoint h)

/-- The sums kept are symmetric where weights are. -/
theorem link_comm (hw : ∀ x y, w x y = w y x) (a b : Dendrogram ℚ) : link w a b = link w b a := by
  simp only [link, totalWeight_comm hw a.classes b.classes, eq_comm]

/-- The total across a tree and a union is the sum of the totals across the two
trees joined. -/
theorem link_node {a b t : Dendrogram ℚ} (hab : a.classes.Disjoint b.classes)
    (hta : t.classes.Disjoint a.classes) (htb : t.classes.Disjoint b.classes) (n : String) (c : ℚ)
    (k : Nat) : link w t (node n a b c k) = link w t a + link w t b := by
  have hperm := classes_node_perm hab n c k
  have htu : t.classes.Disjoint (node n a b c k).classes := by
    intro x hx hxu
    rcases List.mem_append.mp (hperm.mem_iff.mp hxu) with h | h
    · exact hta hx h
    · exact htb hx h
  rw [link_of_disjoint htu, link_of_disjoint hta, link_of_disjoint htb,
    totalWeight_perm_right w _ hperm, totalWeight_append_right]

/-! ### Choosing a pair -/

/-- Pairing each entry with those behind it, by position, lists the pairs of a list. -/
theorem flatMap_drop_zipIdx {β γ : Type} (f : β × Nat → β × Nat → γ) (whole : List (β × Nat))
    (xs : List β) (n : Nat) (h : whole.drop n = xs.zipIdx n) :
    ((xs.zipIdx n).flatMap fun e => (whole.drop (e.2 + 1)).map (f e)) =
      (orderedPairs (xs.zipIdx n)).map fun p => f p.1 p.2 := by
  induction xs generalizing n with
  | nil => rfl
  | cons x rest ih =>
      have hrest : whole.drop (n + 1) = rest.zipIdx (n + 1) := by
        rw [← List.drop_drop, h]
        rfl
      have htail := ih (n + 1) hrest
      rw [List.zipIdx_cons, List.flatMap_cons, htail, hrest]
      simp only [orderedPairs, List.map_append, List.map_map, Function.comp_def]

/-- The row of a cluster holds its links to the clusters behind it. -/
theorem Tracks.candidatesAt_eq {clusters : List (Cluster ℚ)} (hT : Tracks w clusters)
    {c : Cluster ℚ} (hc : c ∈ clusters) (i : Nat) :
    candidatesAt clusters c i = (clusters.zipIdx.drop (i + 1)).map fun e =>
      ⟨i, e.2, averageLink c e.1 (link w c.tree e.1.tree)⟩ := by
  have hfst : clusters.map (fun d => link w c.tree d.tree) =
      clusters.zipIdx.map fun e => link w c.tree e.1.tree := by
    conv_lhs => rw [← List.zipIdx_map_fst 0 clusters, List.map_map]
    rfl
  have hzip : clusters.zipIdx.zip c.links =
      clusters.zipIdx.map fun e => (e, link w c.tree e.1.tree) := by
    rw [hT.links c hc, hfst, List.map_prod_left_eq_zip]
  rw [candidatesAt, hzip, ← List.map_drop, List.map_map]
  rfl

/-- The average of two clusters without a common class is the mean across their classes. -/
theorem Tracks.averageLink_eq {clusters : List (Cluster ℚ)} (hT : Tracks w clusters)
    {c d : Cluster ℚ} (hc : c ∈ clusters) (hd : d ∈ clusters)
    (hdis : c.tree.classes.Disjoint d.tree.classes) :
    averageLink c d (link w c.tree d.tree) = meanWeight w c.tree.classes d.tree.classes := by
  rw [averageLink, hT.size c hc, hT.size d hd, link_of_disjoint hdis]
  rfl

/-- Under the invariant the averages of all pairs are the means of recomputation. -/
theorem candidates_eq_pairs {clusters : List (Cluster ℚ)} (hT : Tracks w clusters)
    (hdis : clusters.Pairwise fun c d => c.tree.classes.Disjoint d.tree.classes) :
    candidates clusters = Recomputed.pairs w (clusters.map tree) := by
  have hpairs : clusters.zipIdx.Pairwise fun e f =>
      e.1.tree.classes.Disjoint f.1.tree.classes := by
    rw [← List.pairwise_map (f := Prod.fst)
      (R := fun c d : Cluster ℚ => c.tree.classes.Disjoint d.tree.classes),
      List.zipIdx_map_fst]
    exact hdis
  have hmeans : ∀ p ∈ orderedPairs clusters.zipIdx,
      averageLink p.1.1 p.2.1 (link w p.1.1.tree p.2.1.tree) =
        meanWeight w p.1.1.tree.classes p.2.1.tree.classes := by
    intro p hp
    obtain ⟨h₁, h₂⟩ := mem_of_mem_orderedPairs hp
    exact hT.averageLink_eq (List.fst_mem_of_mem_zipIdx h₁) (List.fst_mem_of_mem_zipIdx h₂)
      (rel_of_mem_orderedPairs hpairs hp)
  calc candidates clusters
      = clusters.zipIdx.flatMap fun e => (clusters.zipIdx.drop (e.2 + 1)).map fun f =>
          ⟨e.2, f.2, averageLink e.1 f.1 (link w e.1.tree f.1.tree)⟩ :=
        List.flatMap_congr fun e he => hT.candidatesAt_eq (List.fst_mem_of_mem_zipIdx he) e.2
    _ = (orderedPairs clusters.zipIdx).map fun p =>
          ⟨p.1.2, p.2.2, averageLink p.1.1 p.2.1 (link w p.1.1.tree p.2.1.tree)⟩ :=
        flatMap_drop_zipIdx _ _ clusters 0 rfl
    _ = (orderedPairs clusters.zipIdx).map fun p =>
          ⟨p.1.2, p.2.2, meanWeight w p.1.1.tree.classes p.2.1.tree.classes⟩ :=
        List.map_congr_left fun p hp => by rw [hmeans p hp]
    _ = Recomputed.pairs w (clusters.map tree) := by
        rw [Recomputed.pairs, List.zipIdx_map, orderedPairs_map, List.map_map]
        rfl

/-- **Both procedures choose the same pair.** -/
theorem closest?_eq_recomputed {clusters : List (Cluster ℚ)} (hT : Tracks w clusters)
    (hdis : clusters.Pairwise fun c d => c.tree.classes.Disjoint d.tree.classes) :
    closest? clusters = Recomputed.closest? w (clusters.map tree) := by
  rw [closest?_eq_find?, candidates_eq_pairs hT hdis]
  rfl

/-! ### Joining a pair -/

/-- **A merge keeps the running sums**: the two rows are dropped from every kept row, their sum
is appended to it, and the sums of all kept rows are the row of the union. -/
theorem Tracks.join {clusters : List (Cluster ℚ)} (hw : ∀ x y, w x y = w y x)
    (hT : Tracks w clusters)
    (hdis : clusters.Pairwise fun c d => c.tree.classes.Disjoint d.tree.classes) {i j : Nat}
    {a b : Cluster ℚ} (hij : i < j) (ha : clusters[i]? = some a) (hb : clusters[j]? = some b)
    (n : String) (c : ℚ) (k : Nat) :
    Tracks w (Cluster.join clusters i j (node n a.tree b.tree c k) (a.size + b.size)) := by
  have hperm := perm_dropTwo hij ha hb
  have hall := (hperm.pairwise_iff fun {x y} h => List.Disjoint.symm h).mp hdis
  obtain ⟨hrest, hb'⟩ := List.pairwise_cons.mp hall
  have hab : a.tree.classes.Disjoint b.tree.classes := hrest b (by simp)
  have hkept : ∀ d ∈ dropTwo i j clusters, d ∈ clusters ∧
      d.tree.classes.Disjoint a.tree.classes ∧ d.tree.classes.Disjoint b.tree.classes := by
    intro d hd
    exact ⟨(dropTwo_sublist i j clusters).subset hd, (hrest d (by simp [hd])).symm,
      ((List.pairwise_cons.mp hb').1 d hd).symm⟩
  have hsum : ∀ d ∈ dropTwo i j clusters,
      linkToUnion i j d = link w d.tree (node n a.tree b.tree c k) := by
    intro d hd
    obtain ⟨hmem, hda, hdb⟩ := hkept d hd
    rw [linkToUnion, hT.links d hmem, link_node hab hda hdb]
    simp [List.getD_eq_getElem?_getD, ha, hb]
  have htrees : ∀ t : Dendrogram ℚ,
      (Cluster.join clusters i j (node n a.tree b.tree c k) (a.size + b.size)).map
        (fun d => link w t d.tree) =
      (dropTwo i j clusters).map (fun d => link w t d.tree) ++
        [link w t (node n a.tree b.tree c k)] := by
    intro t
    simp [Cluster.join, keep, Function.comp_def]
  constructor
  · intro d hd
    rcases List.mem_append.mp hd with hd | hd
    · obtain ⟨e, he, rfl⟩ := List.mem_map.mp hd
      exact hT.size e (hkept e he).1
    · obtain rfl := List.mem_singleton.mp hd
      rw [classCount_node hab, hT.size a (List.mem_of_getElem? ha),
        hT.size b (List.mem_of_getElem? hb)]
  · intro d hd
    rcases List.mem_append.mp hd with hd | hd
    · obtain ⟨e, he, rfl⟩ := List.mem_map.mp hd
      rw [htrees]
      simp only [keep, hT.links e (hkept e he).1, dropTwo_map, hsum e he]
    · obtain rfl := List.mem_singleton.mp hd
      have hrow : (dropTwo i j clusters).map (linkToUnion i j) =
          (dropTwo i j clusters).map fun d => link w (node n a.tree b.tree c k) d.tree :=
        List.map_congr_left fun e he => by rw [hsum e he, link_comm hw]
      have hself : link w (node n a.tree b.tree c k) (node n a.tree b.tree c k) = 0 := if_pos rfl
      rw [htrees]
      simp only [hrow, hself]

/-! ### All merges -/

/-- What is left at the end of a run is the same for clusters and for the trees alone. -/
theorem complete_eq_finish (made : Nat) (clusters : List (Cluster ℚ)) :
    MergeRun.complete made clusters = Recomputed.finish made (clusters.map tree) := by
  cases clusters <;> rfl

/-- **The merges of both procedures are the same**, with the questions asked and the events
reported. Induction on the merges left; the forest gives that no union is refused and that
trees are disjoint, the running sums that the same pair is chosen. -/
theorem mergeLoop_eq_recomputed {stop : Nat → Bool} {classes : List String}
    (hw : ∀ x y, w x y = w y x) (hnd : classes.Nodup) :
    ∀ (left made : Nat) (series : List ℚ) (clusters : List (Cluster ℚ)),
      series.length = made → Forest classes series (clusters.map tree) → Tracks w clusters →
      mergeLoop stop left made clusters =
        Recomputed.merges w stop left made (clusters.map tree) := by
  intro left
  induction left with
  | zero => exact fun made _ clusters _ _ _ => complete_eq_finish made clusters
  | succ left ih =>
      intro made series clusters hmade hF hT
      have hdis : clusters.Pairwise fun c d => c.tree.classes.Disjoint d.tree.classes :=
        (List.pairwise_map (f := tree)).mp (hF.pairwise_disjoint hnd)
      have hclosest := closest?_eq_recomputed hT hdis
      simp only [mergeLoop, Recomputed.merges, List.length_map, hclosest]
      split
      · rfl
      · cases hc : Recomputed.closest? w (clusters.map tree) with
        | none => exact complete_eq_finish made clusters
        | some c =>
            obtain ⟨hlt, ta, tb, hta, htb, -⟩ :=
              Recomputed.mem_pairs (Recomputed.mem_of_closest? hc)
            have hrange : c.second < clusters.length := by
              have := (List.getElem?_eq_some_iff.mp htb).1
              simpa using this
            obtain ⟨a, b, ha, hb, hstep⟩ := mergeStep?_of_forest hF hnd hmade hlt hrange
            obtain rfl : a.tree = ta := by
              rw [List.getElem?_map, ha] at hta
              exact Option.some.inj hta
            obtain rfl : b.tree = tb := by
              rw [List.getElem?_map, hb] at htb
              exact Option.some.inj htb
            have hnext := hF.join_clusters hnd hmade hlt ha hb c.coupling (a.size + b.size)
            have hsums := hT.join hw hdis hlt ha hb (clusterName (made + 1 : Nat)) c.coupling
              (made + 1)
            have hrest := ih (made + 1) (series ++ [c.coupling]) _ (by simp [hmade]) hnext hsums
            simp only [hstep, hta, htb, hrest, map_tree_join, dropTwo]

/-! ### Runs over a table -/

section Tables

variable {ν : Type} (counts : OrderedMap ClassPair ν) (weights : CouplingWeights ℚ)
  (stop : Nat → Bool)

/-- For classes listed once, the row of a cluster has the cells of its class. -/
theorem singleClusters_of_nodup {classes : List String} (h : classes.Nodup) :
    singleClusters classes weights = classes.map fun a =>
      ⟨leaf a 0, 1, classes.map fun b => cell weights (some a) (some b)⟩ := by
  rw [singleClusters, weightMatrix_of_nodup h, ← List.map_prod_left_eq_zip, List.map_map]
  rfl

/-- The rows of the weight matrix track the weight between two classes. -/
theorem tracks_singleClusters :
    Tracks (Clusterer.ofTables counts weights stop).coupling
      (singleClusters (classesIn counts) weights) := by
  rw [singleClusters_of_nodup weights (nodup_classesIn counts)]
  constructor
  · intro c hc
    obtain ⟨a, -, rfl⟩ := List.mem_map.mp hc
    rfl
  · intro c hc
    obtain ⟨a, ha, rfl⟩ := List.mem_map.mp hc
    rw [List.map_map]
    refine List.map_congr_left fun b hb => ?_
    by_cases hab : a = b
    · simp [link, classes, cell, hab]
    · have hcell := coupling_ofTables counts weights stop ha hb
      simp [link, classes, hab, totalWeight, hcell]

/-- **A run is a run of the recomputing procedure.** In exact arithmetic a run over a table
makes the merges of `Recomputed.run` one by one, whenever it is told to stop: the same pair at
every iteration, the same tree, series, questions and events. So every inner node of its tree
carries the coupling between the classes of its two children. -/
theorem run_eq_recomputed (hnames : ∀ p ∈ counts.keys, p.1 ≠ "" ∧ p.2 ≠ "") :
    let clusterer := Clusterer.ofTables counts weights stop
    clusterer.run.1 = Recomputed.run clusterer.coupling stop (classesIn counts) ∧
      ∀ t, clusterer.run.1.result = .ok (some t) →
        ∀ v ∈ t.nodes, ∀ l r, v.children = [l, r] →
          v.coupling = clusterer.clusterCoupling l.classes r.classes := by
  intro clusterer
  have hrun : clusterer.run.1 = Recomputed.run clusterer.coupling stop (classesIn counts) := by
    by_cases hnone : classesIn counts = []
    · simp [clusterer, Clusterer.run, Clusterer.ofTables, runMerges, Recomputed.run, hnone]
    · have hne := ne_empty_of_mem_classesIn hnames
      have hz : ((0 : ℚ) == 0) = true := by decide
      have hstart := forest_singleClusters (pairwise_classesIn counts) hne hz weights
      have hmerges := @mergeLoop_eq_recomputed _ stop _
        (coupling_ofTables_comm counts weights stop) (nodup_classesIn counts)
        ((classesIn counts).length - 1) 0 [] _ rfl hstart
          (tracks_singleClusters counts weights stop)
      have hstep := run_ofTables weights stop hne hz hnone
      simp only [hmerges, map_tree_singleClusters] at hstep
      rw [hstep, Recomputed.run, if_neg hnone]
  refine ⟨hrun, fun t ht v hv l r hchildren => ?_⟩
  rw [hrun] at ht
  obtain ⟨havg, hsub⟩ := Recomputed.averaged_of_run ht
  have hclasses : ∀ x ∈ v.classes, x ∈ clusterer.classes := fun x hx =>
    hsub x (classes_subset_of_mem_nodes hv hx)
  rw [havg v hv l r hchildren]
  cases v with
  | leaf n c => simp [children] at hchildren
  | node n l' r' c k =>
      obtain ⟨rfl, rfl⟩ : l' = l ∧ r' = r := by simpa [children] using hchildren
      exact (clusterCoupling_eq_meanWeight
        (fun x hx => hclasses x (mem_classes_node.mpr (.inl hx)))
        (fun x hx => hclasses x (mem_classes_node.mpr (.inr hx)))
        l'.classes_ne_nil r'.classes_ne_nil).symm

end Tables

/-- Three classes in two merges. The second coupling is the mean of the weight `1 / 4` and of
the missing weight between `a` and `b`. -/
theorem run_eq_recomputed_of_three :
    let counts : OrderedMap ClassPair Int := .ofList [(("b", "c"), 1), (("a", "c"), 3)]
    let weights : CouplingWeights ℚ := .ofList [(("b", "c"), 1 / 4), (("a", "c"), 3 / 4)]
    let clusterer := Clusterer.ofTables counts weights fun _ => false
    (∀ p ∈ counts.keys, p.1 ≠ "" ∧ p.2 ≠ "") ∧
      clusterer.run.1 = Recomputed.run clusterer.coupling (fun _ => false) ["a", "b", "c"] ∧
      clusterer.run.1.couplings = [3 / 4, 1 / 8] := by
  intro counts weights clusterer
  have hclasses : classesIn counts = ["a", "b", "c"] := by cbv
  have hnames : ∀ p ∈ counts.keys, p.1 ≠ "" ∧ p.2 ≠ "" := by decide
  have hrun := (run_eq_recomputed counts weights (fun _ => false) hnames).1
  rw [hclasses] at hrun
  exact ⟨hnames, hrun, by cbv⟩

end Linkage
