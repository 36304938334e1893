import Mathlib
import Linkage.Proofs.Clustering.Unrelated

/-!
# Connected parts of a table

The classes of a table are a graph, with an edge wherever a weight is positive. When no weight
is negative, a mean across two sets is positive exactly when an edge leads from one to the
other. So a history makes its merges of positive coupling first, each of them along an edge,
and stops making them when no edge is left between two sets. The sets that it has then are the
connected components, and every group made up to there lies within one of them.

## Main results

* `ClassSets.exists_pos_of_meanWeight_pos`, `ClassSets.nonpos_of_meanWeight_nonpos`: a positive
  mean and a positive weight.
* `ClassSets.History.exists_positive_prefix`: the merges of positive coupling come first.
* `ClassSets.History.linked`: they join connected sets.
* `ClassSets.History.exists_settled`: the sets that they leave are `Settled`.
* `ClassSets.Settled.reachable_iff`: settled sets are connected components.
* `maximal_groups_eq_components`: so are the largest groups of a dendrogram.
-/

namespace Linkage

namespace ClassSets

variable {w : String → String → ℚ} {sets rest : List (List String)} {fs : List Fusion}
  {a b C : List String}

/-! ### Means and edges -/

/-- A positive mean has a positive weight. -/
theorem exists_pos_of_meanWeight_pos (h : 0 < meanWeight w a b) : ∃ x ∈ a, ∃ y ∈ b, 0 < w x y := by
  have htotal : 0 < totalWeight w a b := by
    by_contra hle
    exact absurd h (not_lt.mpr (div_nonpos_of_nonpos_of_nonneg (not_lt.mp hle) (Nat.cast_nonneg _)))
  obtain ⟨x, hx, hrow⟩ := List.exists_lt_of_sum_lt (l := a) (f := fun _ => 0)
    (g := fun x => (b.map (w x)).sum) (by simpa [totalWeight] using htotal)
  obtain ⟨y, hy, hpos⟩ := List.exists_lt_of_sum_lt (l := b) (f := fun _ => 0)
    (g := w x) (by simpa using hrow)
  exact ⟨x, hx, y, hy, hpos⟩

/-- When no weight is negative, a mean that is not positive has no positive weight. -/
theorem nonpos_of_meanWeight_nonpos (hw : ∀ x ∈ a, ∀ y ∈ b, 0 ≤ w x y) (h : meanWeight w a b ≤ 0)
    {x y : String} (hx : x ∈ a) (hy : y ∈ b) : w x y ≤ 0 := by
  have htotal : totalWeight w a b ≤ 0 := by
    rw [meanWeight_le_iff (List.ne_nil_of_mem hx) (List.ne_nil_of_mem hy), zero_mul] at h
    exact h
  have hrow : ∀ u ∈ a, 0 ≤ (b.map (w u)).sum := fun u hu =>
    List.sum_nonneg (List.forall_mem_map.mpr fun v hv => hw u hu v hv)
  calc w x y ≤ (b.map (w x)).sum :=
        List.single_le_sum (List.forall_mem_map.mpr fun v hv => hw x hx v hv) _
          (List.mem_map_of_mem hy)
    _ ≤ totalWeight w a b :=
        List.single_le_sum (List.forall_mem_map.mpr hrow) _
          (List.mem_map_of_mem (f := fun u => (b.map (w u)).sum) hx)
    _ ≤ 0 := htotal

/-! ### What a history leaves -/

/-- Every set before a merge lies within one after it. -/
theorem exists_superset_join (sets : List (List String)) (a b : List String) :
    ∀ s ∈ sets, ∃ u ∈ join sets a b, s ⊆ u := by
  intro s hs
  have hunion : Text.members (a ++ b) ∈ join sets a b := by simp [join]
  by_cases hsa : s = a
  · exact ⟨_, hunion, fun x hx => Text.mem_members.mpr (List.mem_append_left _ (hsa ▸ hx))⟩
  · by_cases hsb : s = b
    · exact ⟨_, hunion, fun x hx => Text.mem_members.mpr (List.mem_append_right _ (hsb ▸ hx))⟩
    · exact ⟨s, List.mem_append_left _ (List.mem_filter.mpr ⟨hs, by simp [hsa, hsb]⟩),
        List.Subset.refl s⟩

/-- **Every set that a history has or makes lies within one that it leaves.** -/
theorem History.exists_superset (hH : History w sets fs rest) :
    (∀ s ∈ sets, ∃ u ∈ rest, s ⊆ u) ∧ ∀ f ∈ fs, ∃ u ∈ rest, f.classes ⊆ u := by
  induction hH with
  | refl sets => exact ⟨fun s hs => ⟨s, hs, List.Subset.refl s⟩, by simp⟩
  | @step sets rest a b fs _ _ ih =>
      obtain ⟨hsets, hfusions⟩ := ih
      refine ⟨fun s hs => ?_, List.forall_mem_cons.mpr ⟨hsets _ (by simp [fuse, join]), hfusions⟩⟩
      obtain ⟨u, hu, hsu⟩ := exists_superset_join sets a b s hs
      obtain ⟨u', hu', huu'⟩ := hsets u hu
      exact ⟨u', hu', List.Subset.trans hsu huu'⟩

/-- What a history leaves, it has or makes. -/
theorem History.mem_rest (hH : History w sets fs rest) :
    ∀ u ∈ rest, u ∈ sets ∨ ∃ f ∈ fs, f.classes = u := by
  induction hH with
  | refl sets => exact fun u hu => .inl hu
  | @step sets rest a b fs _ _ ih =>
      intro u hu
      rcases ih u hu with hjoin | ⟨f, hf, hfu⟩
      · rcases List.mem_append.mp hjoin with hkept | hunion
        · exact .inl (List.mem_of_mem_filter hkept)
        · exact .inr ⟨fuse w a b, by simp, (List.mem_singleton.mp hunion).symm⟩
      · exact .inr ⟨f, List.mem_cons_of_mem _ hf, hfu⟩

/-- A history has no further classes. -/
theorem History.subset_of_mem_rest (hH : History w sets fs rest) (hC : ∀ s ∈ sets, s ⊆ C) :
    ∀ u ∈ rest, u ⊆ C := by
  induction hH with
  | refl sets => exact hC
  | step hclosest _ ih => exact ih (subset_of_mem_join hC (mem_of_closest? hclosest))

/-- **The merges of positive coupling come first.** A history to its end starts with one that
makes them, and leaves sets without a positive mean. -/
theorem History.exists_positive_prefix (hw : ∀ x y, w x y = w y x) (hH : History w sets fs rest)
    (hS : Separated sets) (hrest : rest.length ≤ 1) :
    ∃ settled, History w sets (positive fs) settled ∧
      settled.Pairwise fun x y => meanWeight w x y ≤ 0 := by
  induction hH with
  | refl sets =>
      refine ⟨sets, .refl sets, ?_⟩
      rw [pairwise_iff_orderedPairs, orderedPairs_eq_nil_iff.mpr hrest]
      simp
  | @step sets rest a b fs hclosest hH ih =>
      by_cases hpos : 0 < (fuse w a b).coupling
      · obtain ⟨settled, hsettled, hnone⟩ := ih (hS.join (mem_of_closest? hclosest)) hrest
        rw [positive_cons_of_pos hpos]
        exact ⟨settled, .step hclosest hsettled, hnone⟩
      · have hnone : sets.Pairwise fun x y => meanWeight w x y ≤ 0 :=
          (pairwise_le_of_closest? hclosest).imp fun hxy => hxy.trans (not_lt.mp hpos)
        rw [positive_eq_nil ((History.step hclosest hH).coupling_le hw hS hnone)]
        exact ⟨sets, .refl sets, hnone⟩

/-! ### Connected sets -/

/-- The **graph of a weight** on some classes: two of them are adjacent when the weight between
them is positive. -/
def weightGraph (w : String → String → ℚ) (C : List String) : SimpleGraph {x // x ∈ C} :=
  SimpleGraph.fromRel fun x y => 0 < w x y

/-- A set is **linked** when the graph connects all its classes. -/
def Linked (w : String → String → ℚ) (C s : List String) : Prop :=
  ∀ x y : {x // x ∈ C}, x.1 ∈ s → y.1 ∈ s → (weightGraph w C).Reachable x y

/-- A single class is linked. -/
theorem linked_singleton (x : String) : Linked w C [x] := by
  intro y z hy hz
  obtain rfl : y = z :=
    Subtype.ext ((List.mem_singleton.mp hy).trans (List.mem_singleton.mp hz).symm)
  exact .refl y

/-- Two linked sets with a positive mean across them have a linked union. -/
theorem Linked.union (ha : Linked w C a) (hb : Linked w C b) (haC : a ⊆ C) (hbC : b ⊆ C)
    (h : 0 < meanWeight w a b) : Linked w C (Text.members (a ++ b)) := by
  obtain ⟨x, hx, y, hy, hpos⟩ := exists_pos_of_meanWeight_pos h
  have hedge : (weightGraph w C).Reachable ⟨x, haC hx⟩ ⟨y, hbC hy⟩ := by
    by_cases heq : x = y
    · subst heq
      exact .refl _
    · refine SimpleGraph.Adj.reachable ?_
      rw [weightGraph, SimpleGraph.fromRel_adj]
      exact ⟨fun h => heq (congrArg Subtype.val h), .inl hpos⟩
  have hacross : ∀ u v : {x // x ∈ C}, u.1 ∈ a → v.1 ∈ b → (weightGraph w C).Reachable u v :=
    fun u v hu hv => ((ha u ⟨x, haC hx⟩ hu hx).trans hedge).trans (hb ⟨y, hbC hy⟩ v hy hv)
  intro u v hu hv
  rcases List.mem_append.mp (Text.mem_members.mp hu) with hu | hu <;>
    rcases List.mem_append.mp (Text.mem_members.mp hv) with hv | hv
  · exact ha u v hu hv
  · exact hacross u v hu hv
  · exact (hacross v u hv hu).symm
  · exact hb u v hu hv

/-- **Merges of positive coupling join linked sets.** Induction on the history. -/
theorem History.linked (hH : History w sets fs rest) (hpos : ∀ f ∈ fs, 0 < f.coupling)
    (hC : ∀ s ∈ sets, s ⊆ C) (h : ∀ s ∈ sets, Linked w C s) : ∀ u ∈ rest, Linked w C u := by
  induction hH with
  | refl sets => exact h
  | @step sets rest a b fs hclosest _ ih =>
      have hab := mem_of_closest? hclosest
      obtain ⟨ha, hb⟩ := mem_of_mem_orderedPairs hab
      obtain ⟨hfuse, hlater⟩ := List.forall_mem_cons.mp hpos
      refine ih hlater (subset_of_mem_join hC hab) fun s hs => ?_
      rcases List.mem_append.mp hs with hs | hs
      · exact h s (List.mem_of_mem_filter hs)
      · obtain rfl := List.mem_singleton.mp hs
        exact (h a ha).union (h b hb) (hC a ha) (hC b hb) hfuse

/-- Sets are **settled** on some classes when they divide them into linked sets without a
positive mean between two of them. -/
structure Settled (w : String → String → ℚ) (C : List String) (sets : List (List String)) :
    Prop where
  /-- The sets are kept apart. -/
  separated : Separated sets
  /-- They hold no other classes. -/
  subset : ∀ s ∈ sets, s ⊆ C
  /-- They hold every class. -/
  cover : ∀ x ∈ C, ∃ s ∈ sets, x ∈ s
  /-- Each of them is linked. -/
  linked : ∀ s ∈ sets, Linked w C s
  /-- No mean across two of them is positive. -/
  apart : sets.Pairwise fun x y => meanWeight w x y ≤ 0

/-- **A history of single classes makes its merges of positive coupling first, and then its
sets are settled.** -/
theorem History.exists_settled (hw : ∀ x y, w x y = w y x) (hC : C.Nodup)
    (hH : History w (C.map fun x => [x]) fs rest) (hrest : rest.length ≤ 1) :
    ∃ settled, History w (C.map fun x => [x]) (positive fs) settled ∧ Settled w C settled := by
  have hsingle := separated_singletons hC
  obtain ⟨settled, hsettled, hapart⟩ := hH.exists_positive_prefix hw hsingle hrest
  refine ⟨settled, hsettled, hsettled.separated hsingle,
    hsettled.subset_of_mem_rest fun s => subset_of_mem_singletons, fun x hx => ?_, ?_, hapart⟩
  · obtain ⟨u, hu, hxu⟩ := hsettled.exists_superset.1 [x] (List.mem_map.mpr ⟨x, hx, rfl⟩)
    exact ⟨u, hu, hxu (by simp)⟩
  · refine hsettled.linked (fun f hf => of_decide_eq_true (List.mem_filter.mp hf).2)
      (fun s => subset_of_mem_singletons) fun s hs => ?_
    obtain ⟨x, -, rfl⟩ := List.mem_map.mp hs
    exact linked_singleton x

namespace Settled

variable (h : Settled w C sets) (hw : ∀ x y, w x y = w y x)
  (hnonneg : ∀ x ∈ C, ∀ y ∈ C, 0 ≤ w x y)
include h hw hnonneg

/-- When no weight is negative, no edge leads out of a settled set. -/
theorem mem_of_adj {u : List String} (hu : u ∈ sets) {y z : {x // x ∈ C}} (hy : y.1 ∈ u)
    (hyz : (weightGraph w C).Adj y z) : z.1 ∈ u := by
  rw [weightGraph, SimpleGraph.fromRel_adj] at hyz
  have hpos : 0 < w y.1 z.1 := hyz.2.elim id fun h => hw z.1 y.1 ▸ h
  obtain ⟨u', hu', hz⟩ := h.cover z.1 z.2
  by_contra hout
  have hne : u ≠ u' := fun heq => hout (heq ▸ hz)
  have hsymm : Std.Symm fun x y => meanWeight w x y ≤ 0 :=
    ⟨fun x y h => by rwa [meanWeight_comm hw]⟩
  have hmean : meanWeight w u u' ≤ 0 := h.apart.forall hu hu' hne
  have hle := nonpos_of_meanWeight_nonpos
    (fun p hp q hq => hnonneg p (h.subset u hu hp) q (h.subset u' hu' hq)) hmean hy hz
  exact absurd hpos (not_lt.mpr hle)

/-- **Settled sets are connected components**: from a class of a set, the classes of the set
are reached and no others. -/
theorem reachable_iff {u : List String} (hu : u ∈ sets) {x y : {x // x ∈ C}} (hx : x.1 ∈ u) :
    (weightGraph w C).Reachable x y ↔ y.1 ∈ u := by
  refine ⟨fun hxy => ?_, fun hy => h.linked u hu x y hx hy⟩
  rw [SimpleGraph.reachable_iff_reflTransGen] at hxy
  induction hxy with
  | refl => exact hx
  | tail _ hyz ih => exact h.mem_of_adj hw hnonneg hu ih hyz

/-- The component of a class of a settled set is the set. -/
theorem image_supp {u : List String} (hu : u ∈ sets) {x : {x // x ∈ C}} (hx : x.1 ∈ u) :
    Subtype.val '' ((weightGraph w C).connectedComponentMk x).supp = {y | y ∈ u} := by
  ext y
  constructor
  · rintro ⟨z, hz, rfl⟩
    rw [SimpleGraph.ConnectedComponent.mem_supp_iff, SimpleGraph.ConnectedComponent.eq] at hz
    exact (h.reachable_iff hw hnonneg hu hx).mp hz.symm
  · intro hy
    refine ⟨⟨y, h.subset u hu hy⟩, ?_, rfl⟩
    rw [SimpleGraph.ConnectedComponent.mem_supp_iff, SimpleGraph.ConnectedComponent.eq]
    exact ((h.reachable_iff hw hnonneg hu hx (y := ⟨y, h.subset u hu hy⟩)).mpr hy).symm

/-- The components of the graph are the settled sets. -/
theorem mem_range_supp_iff {s : Set String} :
    (s ∈ Set.range fun K : (weightGraph w C).ConnectedComponent => Subtype.val '' K.supp) ↔
      ∃ u ∈ sets, s = {x | x ∈ u} := by
  constructor
  · rintro ⟨K, rfl⟩
    induction K using SimpleGraph.ConnectedComponent.ind with
    | h x =>
        obtain ⟨u, hu, hx⟩ := h.cover x.1 x.2
        exact ⟨u, hu, h.image_supp hw hnonneg hu hx⟩
  · rintro ⟨u, hu, rfl⟩
    obtain ⟨x, hx⟩ := List.exists_mem_of_ne_nil u (h.separated.ne_nil u hu)
    exact ⟨_, h.image_supp hw hnonneg hu (x := ⟨x, h.subset u hu hx⟩) hx⟩

end Settled

/-- **The largest of some sets** are those of a list that are among them and cover all
of them. -/
theorem maximal_iff_of_cover {G : Set (Set String)} (hS : Separated sets)
    (hmem : ∀ u ∈ sets, {x | x ∈ u} ∈ G) (hcover : ∀ s ∈ G, ∃ u ∈ sets, s ⊆ {x | x ∈ u})
    {s : Set String} : Maximal (· ∈ G) s ↔ ∃ u ∈ sets, s = {x | x ∈ u} := by
  constructor
  · intro hmax
    obtain ⟨u, hu, hsu⟩ := hcover s hmax.prop
    exact ⟨u, hu, hmax.eq_of_subset (hmem u hu) hsu⟩
  · rintro ⟨u, hu, rfl⟩
    refine ⟨hmem u hu, fun s hs hus => ?_⟩
    obtain ⟨u', hu', hsu'⟩ := hcover s hs
    obtain ⟨x, hx⟩ := List.exists_mem_of_ne_nil u (hS.ne_nil u hu)
    have hsame : u = u' := by
      by_contra hne
      have hsymm : Std.Symm (List.Disjoint (α := String)) := ⟨fun _ _ h => h.symm⟩
      exact hS.disjoint.forall hu hu' hne hx (hsu' (hus hx))
    exact hsame ▸ hsu'

end ClassSets

/-! ### The groups of a dendrogram -/

open ClassSets Dendrogram

/-- The **groups** of a dendrogram that may be missing: the classes of its leaves and of its
inner nodes of positive coupling. -/
def groups (root : Option (Dendrogram ℚ)) : Set (Set String) :=
  {s | ∃ t, root = some t ∧ ∃ v ∈ t.nodes, (v.isLeaf = true ∨ 0 < v.coupling) ∧
    s = {x | x ∈ v.classes}}

/-- The **coupling graph** of a table: two of its classes are adjacent when their cell of the
weight matrix is positive. -/
def couplingGraph {ν : Type} (counts : OrderedMap ClassPair ν) (weights : CouplingWeights ℚ) :
    SimpleGraph {x // x ∈ classesIn counts} :=
  SimpleGraph.fromRel fun x y => 0 < cell weights (some x.1) (some y.1)

/-- The coupling graph is the graph of the weight that a clusterer of the table reads. -/
theorem couplingGraph_eq_weightGraph {ν : Type} (counts : OrderedMap ClassPair ν)
    (weights : CouplingWeights ℚ) (stop : Nat → Bool) :
    couplingGraph counts weights =
      weightGraph (Clusterer.ofTables counts weights stop).coupling (classesIn counts) := by
  rw [couplingGraph, weightGraph]
  congr 1
  funext x y
  rw [coupling_ofTables counts weights stop x.2 y.2]

/-- The groups of a tree are its leaves and its fusions of positive coupling. -/
theorem mem_groups {t : Dendrogram ℚ} {s : Set String} :
    s ∈ groups (some t) ↔ (∃ x ∈ t.leaves.map name, s = {y | y ∈ [x]}) ∨
      ∃ f ∈ positive t.fusions, s = {y | y ∈ f.classes} := by
  constructor
  · rintro ⟨_, ⟨⟩, v, hv, hgroup, rfl⟩
    cases v with
    | leaf n c =>
        have hleaf : leaf n c ∈ t.leaves := List.mem_filter.mpr ⟨hv, rfl⟩
        exact .inl ⟨n, List.mem_map.mpr ⟨_, hleaf, rfl⟩, rfl⟩
    | node n l r c k =>
        have hpos : 0 < c := hgroup.resolve_left (by simp [isLeaf])
        have hf : ⟨(node n l r c k).classes, l.classes, r.classes, c⟩ ∈ t.fusions :=
          List.mem_filterMap.mpr ⟨_, hv, rfl⟩
        exact .inr ⟨_, List.mem_filter.mpr ⟨hf, decide_eq_true hpos⟩, rfl⟩
  · rintro (⟨x, hx, rfl⟩ | ⟨f, hf, rfl⟩)
    · obtain ⟨v, hv, rfl⟩ := List.mem_map.mp hx
      obtain ⟨hnode, hleaf⟩ := List.mem_filter.mp hv
      cases v with
      | leaf n c => exact ⟨t, rfl, _, hnode, .inl rfl, rfl⟩
      | node n l r c k => cases hleaf
    · obtain ⟨hfusion, hpos⟩ := List.mem_filter.mp hf
      obtain ⟨v, hv, hrecord⟩ := List.mem_filterMap.mp hfusion
      cases v with
      | leaf n c => cases hrecord
      | node n l r c k =>
          obtain rfl := Option.some.inj hrecord
          exact ⟨t, rfl, _, hv, .inr (of_decide_eq_true hpos), rfl⟩

section

variable {ν : Type} {counts : OrderedMap ClassPair ν} {weights : CouplingWeights ℚ}

/-- When no weight is negative, no cell of the weight matrix is. -/
theorem coupling_ofTables_nonneg (hw : ∀ x ∈ weights.values, 0 ≤ x) (stop : Nat → Bool) :
    ∀ x ∈ classesIn counts, ∀ y ∈ classesIn counts,
      0 ≤ (Clusterer.ofTables counts weights stop).coupling x y := by
  intro x hx y hy
  rw [coupling_ofTables counts weights stop hx hy, cell]
  split
  · exact le_refl 0
  · rw [firstWeight]
    have hvalues : ∀ v ∈ (weights.entries.filter fun e => relates x y e.1).map Prod.snd, 0 ≤ v := by
      intro v hv
      obtain ⟨e, he, rfl⟩ := List.mem_map.mp hv
      exact hw _ (List.mem_map.mpr ⟨e, List.mem_of_mem_filter he, rfl⟩)
    exact List.foldlRecOn _ keepNonzero (le_refl 0) fun held hheld offered hoffered => by
      unfold keepNonzero
      split
      · exact hvalues offered hoffered
      · exact hheld

/-- The groups of the dendrogram of a run are its single classes and the fusions of positive
coupling of its history. -/
theorem mem_groups_of_run {stop : Nat → Bool} {fs : List Fusion} {root : Option (Dendrogram ℚ)}
    (hroot : (Clusterer.ofTables counts weights stop).run.1.result = .ok root)
    (hnone : root = none → classesIn counts = []) (hperm : (fusionsOf root).Perm fs)
    {s : Set String} :
    s ∈ groups root ↔ (∃ x ∈ classesIn counts, s = {y | y ∈ [x]}) ∨
      ∃ f ∈ positive fs, s = {y | y ∈ f.classes} := by
  have hpositive : ∀ f, f ∈ positive (fusionsOf root) ↔ f ∈ positive fs := fun f =>
    (hperm.filter _).mem_iff
  cases root with
  | none =>
      obtain rfl : fs = [] := List.nil_perm.mp hperm
      simp [groups, hnone rfl, positive]
  | some t =>
      have hwf : t.WellFormed := (forest_of_run (by decide) hroot).wellFormed t (by simp)
      have hleaves : ∀ x, x ∈ t.leaves.map name ↔ x ∈ classesIn counts := fun x => by
        rw [← classes_of_run (by decide) hroot, hwf.classes_perm_leaves.mem_iff]
      have hfusions : fusionsOf (some t) = t.fusions := by simp [fusionsOf]
      rw [hfusions] at hpositive
      rw [mem_groups]
      simp only [hleaves, hpositive]

/-- **The largest groups of a dendrogram are the connected components of its table**, when no
weight is negative. A group is the class set of a leaf or of an inner node of positive
coupling; the vertices of the graph are the classes of the counts, and its edges are the
positive cells of the weight matrix. A table of classes with names has a dendrogram. -/
theorem maximal_groups_eq_components (hw : ∀ x ∈ weights.values, 0 ≤ x) :
    ((∀ p ∈ counts.keys, p.1 ≠ "" ∧ p.2 ≠ "") →
      ∃ root, buildDendrogram counts weights = .ok root) ∧
    ∀ stop root, (Clusterer.ofTables counts weights stop).run.1.result = .ok root →
      {s | Maximal (· ∈ groups root) s} =
        Set.range fun K : (couplingGraph counts weights).ConnectedComponent =>
          Subtype.val '' K.supp := by
  refine ⟨fun hnames => (exists_buildDendrogram_iff (by decide)).mpr
    (ne_empty_of_mem_classesIn hnames), fun stop root hroot => ?_⟩
  obtain ⟨fs, rest, hH, -, hend⟩ := exists_history_of_run counts weights stop
  obtain ⟨hrest, hperm⟩ := hend root hroot
  have hfew : rest.length ≤ 1 := by
    rw [hrest, List.length_map]
    exact Option.length_toList_le
  have hsymm := coupling_ofTables_comm counts weights stop
  obtain ⟨settled, hpositive, hsettled⟩ :=
    hH.exists_settled hsymm (nodup_classesIn counts) hfew
  have hnone : root = none → classesIn counts = [] := fun h => by
    by_contra hsome
    exact hH.ne_nil (by simpa using hsome) (by rw [hrest, h]; rfl)
  have hgroups := fun s => mem_groups_of_run (s := s) hroot hnone hperm
  have hmem : ∀ u ∈ settled, {x | x ∈ u} ∈ groups root := by
    intro u hu
    rw [hgroups]
    rcases hpositive.mem_rest u hu with h | ⟨f, hf, rfl⟩
    · obtain ⟨x, hx, rfl⟩ := List.mem_map.mp h
      exact .inl ⟨x, hx, rfl⟩
    · exact .inr ⟨f, hf, rfl⟩
  have hcover : ∀ s ∈ groups root, ∃ u ∈ settled, s ⊆ {x | x ∈ u} := by
    intro s hs
    obtain ⟨hsingles, hfusions⟩ := hpositive.exists_superset
    rcases (hgroups s).mp hs with ⟨x, hx, rfl⟩ | ⟨f, hf, rfl⟩
    · exact hsingles [x] (List.mem_map.mpr ⟨x, hx, rfl⟩)
    · exact hfusions f hf
  rw [couplingGraph_eq_weightGraph counts weights stop]
  ext s
  exact (maximal_iff_of_cover hsettled.separated hmem hcover).trans
    (hsettled.mem_range_supp_iff hsymm (coupling_ofTables_nonneg hw stop)).symm

/-- The classes `a`, `b` and `c` are a chain. The class `d` is counted with `c` but has weight
zero, so that the last merge is no group. -/
theorem maximal_groups_eq_components_of_chain :
    let counts : OrderedMap ClassPair Int :=
      .ofList [(("c", "d"), 0), (("a", "b"), 2), (("b", "c"), 1)]
    let weights : CouplingWeights ℚ :=
      .ofList [(("c", "d"), 0), (("a", "b"), 1 / 2), (("c", "b"), 1 / 4)]
    let abc : Dendrogram ℚ :=
      node "cluster-002" (leaf "c" 0) (node "cluster-001" (leaf "a" 0) (leaf "b" 0) (1 / 2) 1)
        (1 / 8) 2
    let root : Dendrogram ℚ := node "cluster-003" (leaf "d" 0) abc 0 3
    buildDendrogram counts weights = .ok (some root) ∧
      {s | Maximal (· ∈ groups (some root)) s} =
        Set.range fun K : (couplingGraph counts weights).ConnectedComponent =>
          Subtype.val '' K.supp := by
  intro counts weights abc root
  have hnonneg : ∀ x ∈ weights.values, 0 ≤ x := by decide +kernel
  have hroot : buildDendrogram counts weights = .ok (some root) := by
    subst counts weights root abc
    cbv
  exact ⟨hroot, (maximal_groups_eq_components hnonneg).2 (fun _ => false) _ hroot⟩

end

end Linkage
