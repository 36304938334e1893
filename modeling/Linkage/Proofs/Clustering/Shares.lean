import Mathlib
import Linkage.Proofs.Clustering.Growth
import Linkage.Proofs.Number.CountBound

/-!
# The couplings of a run are averages

The summed weight between two clusters is a sum of as many weights as there are pairs of
classes across them, so the average over these pairs is bounded by what holds of averages. A
merge keeps this: the link of a cluster to a union is the sum of its links to the two parts,
and the pairs across add up in the same way. So the couplings that a run gives to the nodes of
its tree are bounded.

In exact arithmetic they are shares when all weights are. In floating point they are finite,
whatever order the merges add in.

## Main results

* `Bounded.coupling_of_mem_candidates`: the average of a pair of bounded clusters is good.
* `Bounded.join`: a merge keeps the clusters bounded.
* `good_coupling_of_run`: the couplings of the tree of a run are good.
* `isShare_coupling_of_run`: in exact arithmetic they are shares.
-/

namespace Linkage

open Dendrogram

variable {α : Type} [Scalar α] {limit total : ℕ} {holds : ℕ → α → Prop} {good : α → Prop}

namespace Cluster

/-! ### Bounded links -/

/-- The clusters of a list are **bounded**: each has classes, and no more than a total
together; the links of each are sums of as many weights as there are pairs of classes across it
and the active cluster that they lead to; and the couplings in its tree are good. -/
structure Bounded (holds : ℕ → α → Prop) (good : α → Prop) (total : ℕ)
    (clusters : List (Cluster α)) :
    Prop where
  /-- Every cluster has a class. -/
  size_pos : ∀ c ∈ clusters, 0 < c.size
  /-- The clusters have no more classes than the total. -/
  sum_le : (clusters.map size).sum ≤ total
  /-- Every cluster has one link to each active cluster, which is bounded by the two. -/
  links : ∀ c ∈ clusters, List.Forall₂ (fun d x => holds (c.size * d.size) x) clusters c.links
  /-- The couplings of all nodes are good. -/
  couplings : ∀ c ∈ clusters, ∀ v ∈ c.tree.nodes, good v.coupling

variable {clusters : List (Cluster α)}

omit [Scalar α] in
/-- A bounded cluster has no more classes than the total. -/
theorem Bounded.size_le (h : Bounded holds good total clusters) {c : Cluster α}
    (hc : c ∈ clusters) : c.size ≤ total :=
  (List.single_le_sum (fun _ _ => Nat.zero_le _) _ (List.mem_map_of_mem hc)).trans h.sum_le

/-- **The average of a pair of bounded clusters is good.** -/
theorem Bounded.coupling_of_mem_candidates (hbound : CountBound (total * total) holds good)
    (h : Bounded holds good total clusters) {c : Candidate α} (hc : c ∈ candidates clusters) :
    good c.coupling := by
  obtain ⟨⟨a, i⟩, ha, hc⟩ := List.mem_flatMap.mp hc
  obtain ⟨⟨⟨b, j⟩, x⟩, hb, rfl⟩ := List.mem_map.mp hc
  have ha : a ∈ clusters := List.fst_mem_of_mem_zipIdx ha
  have hb : ((b, j), x) ∈ clusters.zipIdx.zip a.links := List.mem_of_mem_drop hb
  have hmem : b ∈ clusters := List.fst_mem_of_mem_zipIdx (List.of_mem_zip hb).1
  have hzip : (b, x) ∈ clusters.zip a.links := by
    have hmap : (b, x) ∈ (clusters.zipIdx.zip a.links).map (Prod.map Prod.fst id) :=
      List.mem_map.mpr ⟨_, hb, rfl⟩
    rwa [← List.zip_map_left, List.zipIdx_map_fst] at hmap
  exact hbound.div (Nat.mul_pos (h.size_pos a ha) (h.size_pos b hmem))
    (Nat.mul_le_mul (h.size_le ha) (h.size_le hmem)) (List.forall₂_zip (h.links a ha) hzip)

/-! ### Merges -/

/-- A relation between two lists holds of what is left after taking out two positions. -/
theorem forall₂_dropTwo {β γ : Type} {R : β → γ → Prop} {xs : List β} {ys : List γ}
    (h : List.Forall₂ R xs ys) (i j : Nat) : List.Forall₂ R (dropTwo i j xs) (dropTwo i j ys) := by
  have hone : ∀ {us : List β} {vs : List γ}, List.Forall₂ R us vs → ∀ k,
      List.Forall₂ R (us.eraseIdx k) (vs.eraseIdx k) := by
    intro us vs huv
    induction huv with
    | nil => exact fun k => .nil
    | cons hab hrest ih =>
        intro k
        cases k with
        | zero => exact hrest
        | succ k => exact .cons hab (ih k)
  exact hone (hone h j) i

/-- The link of a bounded cluster to an active cluster is bounded by the two. -/
theorem Bounded.holds_getD (h : Bounded holds good total clusters) {c d : Cluster α}
    (hc : c ∈ clusters) {i : Nat} (hd : clusters[i]? = some d) :
    holds (c.size * d.size) (c.links.getD i 0) := by
  obtain ⟨hi, rfl⟩ := List.getElem?_eq_some_iff.mp hd
  have hlinks := h.links c hc
  have hi' : i < c.links.length := hlinks.length_eq ▸ hi
  have hlink : c.links.getD i 0 = c.links[i] := List.getD_eq_getElem _ _ hi'
  rw [hlink]
  exact hlinks.get hi hi'

section Join

variable (hbound : CountBound (total * total) holds good) (h : Bounded holds good total clusters)
  {i j : Nat} {a b : Cluster α} (hij : i < j) (ha : clusters[i]? = some a)
  (hb : clusters[j]? = some b)

include h hij ha hb

omit [Scalar α] in
/-- The two clusters of a merge and the others have no more classes than the total. -/
theorem Bounded.sum_dropTwo_le :
    a.size + b.size + ((dropTwo i j clusters).map size).sum ≤ total := by
  have hsum := ((perm_dropTwo hij ha hb).map size).sum_eq
  simp only [List.map_cons, List.sum_cons] at hsum
  have := h.sum_le
  omega

include hbound

/-- **The link to a union is bounded**: the pairs across add up like the links. -/
theorem Bounded.holds_linkToUnion {c : Cluster α} (hc : c ∈ clusters) :
    holds (c.size * (a.size + b.size)) (linkToUnion i j c) := by
  have hunion := h.sum_dropTwo_le hij ha hb
  rw [Nat.mul_add]
  refine hbound.add ?_ (h.holds_getD hc ha) (h.holds_getD hc hb)
  rw [← Nat.mul_add]
  exact Nat.mul_le_mul (h.size_le hc) (by omega)

/-- **A merge keeps the clusters bounded.** -/
theorem Bounded.join {union : Dendrogram α} (hunion : ∀ v ∈ union.nodes, good v.coupling) :
    Bounded holds good total (join clusters i j union (a.size + b.size)) := by
  have hkept : ∀ c ∈ dropTwo i j clusters, c ∈ clusters := fun c hc =>
    (dropTwo_sublist i j clusters).subset hc
  have hsize : 0 < a.size + b.size := Nat.add_pos_left (h.size_pos a (List.mem_of_getElem? ha)) _
  have hsum := h.sum_dropTwo_le hij ha hb
  -- every cluster after the merge is one that was kept, or the union
  have hcases : ∀ {P : Cluster α → Prop}, (∀ c ∈ dropTwo i j clusters, P (keep i j c)) →
      P ⟨union, a.size + b.size, (dropTwo i j clusters).map (linkToUnion i j) ++ [0]⟩ →
      ∀ c ∈ Cluster.join clusters i j union (a.size + b.size), P c := by
    intro P hkeep hlast c hc
    rcases List.mem_append.mp hc with hc | hc
    · obtain ⟨d, hd, rfl⟩ := List.mem_map.mp hc
      exact hkeep d hd
    · obtain rfl := List.mem_singleton.mp hc
      exact hlast
  refine ⟨hcases (fun c hc => h.size_pos c (hkept c hc)) hsize, ?_, hcases (fun c hc => ?_) ?_,
    hcases (fun c hc => h.couplings c (hkept c hc)) hunion⟩
  · have hsizes : ((dropTwo i j clusters).map (keep i j)).map size =
        (dropTwo i j clusters).map size := by
      rw [List.map_map]
      rfl
    rw [Cluster.join, List.map_append, hsizes, List.sum_append]
    simp only [List.map_cons, List.map_nil, List.sum_singleton]
    omega
  · refine List.rel_append ?_ (.cons (h.holds_linkToUnion hbound hij ha hb (hkept c hc)) .nil)
    rw [List.forall₂_map_left_iff]
    exact forall₂_dropTwo (h.links c (hkept c hc)) i j
  · refine List.rel_append ?_ (.cons (hbound.holds_zero _) .nil)
    rw [List.forall₂_map_left_iff, List.forall₂_map_right_iff, List.forall₂_same]
    intro c hc
    have hlink := h.holds_linkToUnion hbound hij ha hb (hkept c hc)
    rwa [Nat.mul_comm] at hlink

end Join

/-- A step that joins two bounded clusters at a good coupling leaves bounded clusters. -/
theorem Bounded.of_mergeStep? (hbound : CountBound (total * total) holds good)
    (h : Bounded holds good total clusters) {iteration : Nat} {c : Candidate α}
    (hlt : c.first < c.second) (hc : good c.coupling) {next : Event α × List (Cluster α)}
    (hstep : mergeStep? iteration clusters c = .ok next) : Bounded holds good total next.2 := by
  unfold mergeStep? at hstep
  split at hstep
  · next a b ha hb =>
    obtain ⟨union, hunion, hstep⟩ := exists_of_bind_eq_ok hstep
    obtain rfl := Except.ok.inj hstep
    obtain ⟨-, -, -, rfl⟩ := merge?_eq_ok_iff.mp hunion
    refine h.join hbound hlt ha hb (forall_nodes_node.mpr ⟨hc, ?_, ?_⟩)
    · exact h.couplings a (List.mem_of_getElem? ha)
    · exact h.couplings b (List.mem_of_getElem? hb)
  · cases hstep

/-! ### The clusters of single classes -/

/-- What holds of zero and of all weights of a table holds of all cells of its
weight matrix. -/
theorem holds_of_mem_weightMatrix {P : α → Prop} (hzero : P 0) {weights : CouplingWeights α}
    (hw : ∀ x ∈ weights.values, P x) {classes : List String} {row : List α}
    (hrow : row ∈ weightMatrix classes weights) : ∀ x ∈ row, P x := by
  have hcells : ∀ row ∈ weightMatrix classes weights, ∀ x ∈ row, P x := by
    refine weightMatrix_induction (P := fun rows => ∀ row ∈ rows, ∀ x ∈ row, P x) ?_ ?_
    · intro row hrow x hx
      rw [List.eq_of_mem_replicate hrow] at hx
      exact List.eq_of_mem_replicate hx ▸ hzero
    · intro rows hrows e he
      have hweight : P e.2 := hw e.2 (List.mem_map.mpr ⟨e, he, rfl⟩)
      obtain hsame | ⟨i, j, -, -, -, -, hset⟩ :=
        WeightMatrix.enter_cases (WeightMatrix.places classes) rows e
      · rwa [hsame]
      · rw [hset]
        exact WeightMatrix.forall_mem_setCell
          (WeightMatrix.forall_mem_setCell hrows hweight) hweight
  exact hcells row hrow

/-- The clusters of single classes are bounded when all weights are. -/
theorem bounded_singleClusters (hbound : CountBound limit holds good) {weights : CouplingWeights α}
    (hw : ∀ x ∈ weights.values, holds 1 x) (classes : List String) :
    Bounded holds good classes.length (singleClusters classes weights) := by
  have hmem : ∀ c ∈ singleClusters classes weights, ∃ x, c.tree = leaf x 0 ∧ c.size = 1 ∧
      c.links ∈ weightMatrix classes weights := by
    intro c hc
    obtain ⟨e, he, rfl⟩ := List.mem_map.mp hc
    exact ⟨e.1, rfl, rfl, (List.of_mem_zip he).2⟩
  refine ⟨fun c hc => ?_, ?_, fun c hc => ?_, fun c hc v hv => ?_⟩
  · obtain ⟨-, -, hsize, -⟩ := hmem c hc
    omega
  · have hsizes : (singleClusters classes weights).map size =
        List.replicate (singleClusters classes weights).length 1 :=
      List.map_eq_replicate_iff.mpr fun c hc => (hmem c hc).choose_spec.2.1
    rw [hsizes, List.sum_replicate, length_singleClusters, smul_eq_mul, mul_one]
  · obtain ⟨-, -, hsize, hlinks⟩ := hmem c hc
    have hlength : (singleClusters classes weights).length = c.links.length :=
      (aligned_singleClusters classes weights c hc).symm
    refine List.forall₂_iff_zip.mpr ⟨hlength, fun {d x} hdx => ?_⟩
    obtain ⟨hd, hx⟩ := List.of_mem_zip hdx
    obtain ⟨-, -, hsize', -⟩ := hmem d hd
    rw [hsize, hsize']
    exact holds_of_mem_weightMatrix (hbound.holds_zero 1) hw hlinks x hx
  · obtain ⟨x, htree, -, -⟩ := hmem c hc
    rw [htree, nodes_leaf, List.mem_singleton] at hv
    subst hv
    exact hbound.good_zero

end Cluster

/-! ### Runs -/

open Cluster

omit [Scalar α] in
/-- A run that has come to an end with bounded clusters leaves a tree whose couplings
are good. -/
theorem good_coupling_of_complete {made : Nat} {clusters : List (Cluster α)}
    (h : Bounded holds good total clusters) {t : Dendrogram α}
    (ht : (MergeRun.complete made clusters).result = .ok (some t)) :
    ∀ v ∈ t.nodes, good v.coupling := by
  cases clusters with
  | nil => cases ht
  | cons c rest =>
      cases ht
      exact h.couplings c List.mem_cons_self

/-- The couplings of the tree that merges end in are good. Induction on the merges left, with
bounded clusters as the invariant. -/
theorem good_coupling_of_mergeLoop (hbound : CountBound (total * total) holds good)
    {stop : Nat → Bool}
    {left made : Nat} {clusters : List (Cluster α)} (h : Bounded holds good total clusters)
    {t : Dendrogram α} (ht : (mergeLoop stop left made clusters).result = .ok (some t)) :
    ∀ v ∈ t.nodes, good v.coupling := by
  induction left generalizing made clusters with
  | zero => exact good_coupling_of_complete h ht
  | succ left ih =>
      rw [mergeLoop] at ht
      split at ht
      · cases ht
      · split at ht
        · exact good_coupling_of_complete h ht
        · next c hc =>
          have hmem := mem_candidates_of_closest? hc
          have hgood := h.coupling_of_mem_candidates hbound hmem
          split at ht
          · cases ht
          · next event rest hstep =>
            exact ih (h.of_mergeStep? hbound (lt_of_mem_candidates hmem).1 hgood hstep) ht

/-- **The couplings of the tree of a run are good** when all weights are bounded. -/
theorem good_coupling_of_run (hz : ((0 : α) == 0) = true) {ν : Type}
    {counts : OrderedMap ClassPair ν}
    (hbound : CountBound ((classesIn counts).length * (classesIn counts).length) holds good)
    {weights : CouplingWeights α} (hw : ∀ x ∈ weights.values, holds 1 x) {stop : Nat → Bool}
    {t : Dendrogram α}
    (ht : (Clusterer.ofTables counts weights stop).run.1.result = .ok (some t)) :
    ∀ v ∈ t.nodes, good v.coupling := by
  obtain ⟨hsome, hne⟩ := names_of_run hz ht
  rw [run_ofTables weights stop hne hz hsome] at ht
  exact good_coupling_of_mergeLoop hbound (bounded_singleClusters hbound hw (classesIn counts)) ht

/-- **In exact arithmetic the couplings of the tree of a run are shares** when all
weights are. -/
theorem isShare_coupling_of_run [ExactScalar α] {ν : Type} {counts : OrderedMap ClassPair ν}
    {weights : CouplingWeights α} (hw : ∀ x ∈ weights.values, IsShare x) {stop : Nat → Bool}
    {t : Dendrogram α}
    (ht : (Clusterer.ofTables counts weights stop).run.1.result = .ok (some t)) :
    ∀ v ∈ t.nodes, IsShare v.coupling :=
  good_coupling_of_run ExactScalar.zero_beq_zero (countBound_exact _) hw ht

end Linkage
