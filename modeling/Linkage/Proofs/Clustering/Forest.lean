import Mathlib
import Linkage.Proofs.Clustering.ActiveList
import Linkage.Proofs.Dendrogram.WellFormed

/-!
# The active clusters as a forest

The trees of the active clusters form a forest over the classes: every class is a leaf of one
of them, every merge made so far is an inner node of one of them, and the list is in the order
in which the trees were created. `Forest classes series ts` states this of a list of trees
`ts`, where `series` holds the couplings of the merges made so far. A merge of two trees keeps
it, and adds its coupling to the series. No law of arithmetic is used, so all of this holds
with undefined and unbounded weights.

## Main results

* `mergeCouplings_of_perm`: the couplings of a tree by level are the series of its merges.
* `Forest.pairwise_disjoint`: the trees of a forest share no class.
* `Forest.join`: taking out two trees and appending their union keeps the invariant.
* `Forest.singletons`: the single classes are a forest.
-/

namespace Linkage

namespace Dendrogram

variable {α : Type}

/-! ### Trees in the order of creation -/

/-- One tree was **created before** another: leaves come first, in increasing order, and inner
nodes follow by level. -/
def CreatedBefore : Dendrogram α → Dendrogram α → Prop
  | leaf m _, leaf n _ => m < n
  | leaf _ _, node _ _ _ _ _ => True
  | node _ _ _ _ _, leaf _ _ => False
  | node _ _ _ _ j, node _ _ _ _ k => j < k

/-- A tree **grown** by merges: every inner node is named after its level, its children have
lower levels, and the left one was created before the right one. -/
def Grown (t : Dendrogram α) : Prop :=
  ∀ v ∈ t.nodes, ∀ l r, v.children = [l, r] →
    v.name = clusterName v.level ∧ l.level < v.level ∧ r.level < v.level ∧ CreatedBefore l r

/-- A leaf has grown without merges. -/
theorem grown_leaf (n : String) (c : α) : (leaf n c).Grown := by
  simp [Grown, children]

/-- The union of two grown trees under a higher level is grown. -/
theorem Grown.node {l r : Dendrogram α} (hl : l.Grown) (hr : r.Grown) {k : Nat}
    (hkl : l.level < k) (hkr : r.level < k) (hlr : CreatedBefore l r) (c : α) :
    (node (clusterName k) l r c k).Grown := by
  refine forall_nodes_node.mpr ⟨fun l' r' hchildren => ?_, hl, hr⟩
  obtain ⟨rfl, rfl⟩ : l = l' ∧ r = r' := by simpa [children] using hchildren
  exact ⟨rfl, hkl, hkr, hlr⟩

/-- The inner nodes of a grown tree are named after their levels. -/
theorem Grown.name_eq {t v : Dendrogram α} (h : t.Grown) (hv : v ∈ t.nodes)
    (hinner : v.isLeaf = false) : v.name = clusterName v.level := by
  cases v with
  | leaf n c => cases hinner
  | node n l r c k => exact (h _ hv l r rfl).1

/-- The level and coupling of every merge in a tree. -/
def merges (t : Dendrogram α) : List (Nat × α) := t.inner.map fun v => (v.level, v.coupling)

@[simp] theorem merges_leaf (n : String) (c : α) : (leaf n c).merges = [] := by
  simp [merges]

@[simp] theorem merges_node (n : String) (l r : Dendrogram α) (c : α) (k : Nat) :
    (node n l r c k).merges = (k, c) :: (l.merges ++ r.merges) := by
  simp [merges, level, coupling]

/-- The levels `1, 2, …` with the couplings of a series. -/
def numbered (series : List α) : List (Nat × α) := (List.range' 1 series.length).zip series

/-- The last of a row of numbered merges has their number. -/
theorem numbered_append (series : List α) (c : α) :
    numbered (series ++ [c]) = numbered series ++ [(series.length + 1, c)] := by
  rw [numbered, List.length_append, List.length_singleton, List.range'_concat, List.zip_append]
  · simp [numbered, add_comm]
  · simp

/-- Merges are numbered from one to their number. -/
theorem level_le_of_mem_numbered {series : List α} {k : Nat} {c : α}
    (h : (k, c) ∈ numbered series) : 1 ≤ k ∧ k ≤ series.length := by
  have hk := List.mem_range'_1.mp (List.of_mem_zip h).1
  omega

/-- **Reading back a series**: when the merges of a tree are numbered like a series, the
couplings of its inner nodes by increasing level are that series. -/
theorem mergeCouplings_of_perm {t : Dendrogram α} {series : List α}
    (h : t.merges.Perm (numbered series)) : t.mergeCouplings = series := by
  have hsorted : (numbered series).Pairwise fun p q => p.1 < q.1 := by
    rw [numbered, ← List.pairwise_map, List.map_fst_zip (by simp)]
    exact List.pairwise_lt_range'
  have hperm : (t.internalNodes.map fun v => (v.level, v.coupling)).Perm (numbered series) :=
    ((List.mergeSort_perm t.inner _).map _).trans h
  have hlevels : (t.internalNodes.map fun v => (v.level, v.coupling)).Pairwise
      fun p q => p.1 ≤ q.1 := by
    rw [List.pairwise_map]
    refine (List.pairwise_mergeSort ?_ ?_ t.inner).imp fun hab => of_decide_eq_true hab
    · intro a b c hab hbc
      rw [decide_eq_true_eq] at hab hbc ⊢
      exact le_trans hab hbc
    · intro a b
      rw [Bool.or_eq_true, decide_eq_true_eq, decide_eq_true_eq]
      exact le_total _ _
  have heq : t.internalNodes.map (fun v => (v.level, v.coupling)) = numbered series := by
    refine List.Perm.eq_of_pairwise (fun p q hp hq hpq hqp => ?_) hlevels
      (hsorted.imp fun h => le_of_lt h) hperm
    have hnodup : ((numbered series).map Prod.fst).Nodup :=
      (List.pairwise_map.mpr hsorted).imp fun h => ne_of_lt h
    exact List.inj_on_of_nodup_map hnodup (hperm.mem_iff.mp hp) hq (le_antisymm hpq hqp)
  calc t.mergeCouplings
      = (t.internalNodes.map fun v => (v.level, v.coupling)).map Prod.snd := by
        simp [mergeCouplings, Function.comp_def]
    _ = series := by
        rw [heq, numbered, List.map_snd_zip (by simp)]

end Dendrogram

open Dendrogram Cluster

variable {α : Type} [Scalar α]

/-! ### The invariant of the list of trees -/

/-- The active trees are a **forest** over the classes after some merges: well-formed and
grown, in the order of creation, with the classes as leaves and the merges as inner nodes. -/
structure Forest (classes : List String) (series : List α) (ts : List (Dendrogram α)) : Prop where
  /-- Every tree passes the checks of the constructor. -/
  wellFormed : ∀ t ∈ ts, t.WellFormed
  /-- Every tree has grown by merges. -/
  grown : ∀ t ∈ ts, t.Grown
  /-- The list is in the order of creation. -/
  ordered : ts.Pairwise CreatedBefore
  /-- The leaves of the trees are the classes. -/
  leaves : (ts.flatMap fun t => t.leaves.map name).Perm classes
  /-- The inner nodes of the trees are the merges made so far. -/
  merges : (ts.flatMap Dendrogram.merges).Perm (numbered series)

namespace Forest

variable {classes : List String} {series : List α} {ts : List (Dendrogram α)}

/-- No tree has a level above the number of merges. -/
theorem level_le (h : Forest classes series ts) {t : Dendrogram α} (ht : t ∈ ts) :
    t.level ≤ series.length := by
  cases t with
  | leaf n c => exact Nat.zero_le _
  | node n l r c k =>
      have hk : (k, c) ∈ ts.flatMap Dendrogram.merges :=
        List.mem_flatMap.mpr ⟨_, ht, by simp⟩
      exact (level_le_of_mem_numbered (h.merges.mem_iff.mp hk)).2

/-- When one tree is left, there has been one merge less than there are classes. -/
theorem length_eq {t : Dendrogram α} (h : Forest classes series [t]) :
    classes.length = series.length + 1 := by
  have hleaves := h.leaves.length_eq
  have hmerges := h.merges.length_eq
  simp only [List.flatMap_singleton, List.length_map, Dendrogram.merges, numbered,
    List.length_zip, List.length_range', min_self] at hleaves hmerges
  rw [← hleaves, length_leaves, hmerges]

/-- The trees of the list share no class. -/
theorem pairwise_disjoint (h : Forest classes series ts) (hnd : classes.Nodup) :
    ts.Pairwise fun a b => a.classes.Disjoint b.classes := by
  have hnodup := (List.nodup_flatMap.mp (h.leaves.nodup_iff.mpr hnd)).2
  refine hnodup.imp fun hab x hxa hxb => ?_
  exact hab (mem_classes.mp hxa) (mem_classes.mp hxb)

/-- Two trees of the list share no class. -/
theorem disjoint (h : Forest classes series ts) (hnd : classes.Nodup) {i j : Nat}
    {a b : Dendrogram α} (hij : i < j) (ha : ts[i]? = some a) (hb : ts[j]? = some b) :
    a.classes.Disjoint b.classes :=
  rel_of_getElem? (h.pairwise_disjoint hnd) hij ha hb

/-- **A merge keeps the forest**: two trees are taken out, and their union, which carries the
next level, is put at the end. -/
theorem join (h : Forest classes series ts) (hnd : classes.Nodup) {i j : Nat}
    {a b : Dendrogram α} (hij : i < j) (ha : ts[i]? = some a) (hb : ts[j]? = some b) (c : α) :
    Forest classes (series ++ [c]) (dropTwo i j ts ++
      [node (clusterName (series.length + 1 : Nat)) a b c (series.length + 1)]) := by
  have hma : a ∈ ts := List.mem_of_getElem? ha
  have hmb : b ∈ ts := List.mem_of_getElem? hb
  have hkept : ∀ t ∈ dropTwo i j ts, t ∈ ts := fun t ht => (dropTwo_sublist i j ts).subset ht
  have hsplit := perm_dropTwo hij ha hb
  have hbefore : CreatedBefore a b := rel_of_getElem? h.ordered hij ha hb
  refine ⟨?_, ?_, ?_, ?_, ?_⟩
  · intro t ht
    rcases List.mem_append.mp ht with ht | ht
    · exact h.wellFormed t (hkept t ht)
    · obtain rfl := List.mem_singleton.mp ht
      refine ⟨?_, Nat.le_add_left 1 _, h.disjoint hnd hij ha hb, h.wellFormed a hma,
        h.wellFormed b hmb⟩
      simp [clusterName]
  · intro t ht
    rcases List.mem_append.mp ht with ht | ht
    · exact h.grown t (hkept t ht)
    · obtain rfl := List.mem_singleton.mp ht
      exact (h.grown a hma).node (h.grown b hmb) (Nat.lt_succ_of_le (h.level_le hma))
        (Nat.lt_succ_of_le (h.level_le hmb)) hbefore c
  · refine List.pairwise_append.mpr ⟨h.ordered.sublist (dropTwo_sublist i j ts), by simp, ?_⟩
    intro t ht u hu
    obtain rfl := List.mem_singleton.mp hu
    have hlevel := h.level_le (hkept t ht)
    cases t with
    | leaf n x => trivial
    | node n l r x k => exact Nat.lt_succ_of_le hlevel
  · refine List.Perm.trans ?_ h.leaves
    refine List.Perm.trans ?_ (hsplit.flatMap_right _).symm
    simp only [List.flatMap_append, List.flatMap_cons, List.flatMap_nil, List.append_nil,
      leaves_node, List.map_append]
    refine List.perm_append_comm.trans ?_
    rw [List.append_assoc]
  · rw [numbered_append]
    refine List.Perm.trans ?_ (h.merges.append_right _)
    refine List.Perm.trans ?_ ((hsplit.flatMap_right _).symm.append_right _)
    simp only [List.flatMap_append, List.flatMap_cons, List.flatMap_nil, List.append_nil,
      merges_node]
    refine List.perm_middle.trans ?_
    refine List.Perm.trans ?_ (List.perm_append_singleton _ _).symm
    refine (List.perm_append_comm.trans ?_).cons _
    rw [List.append_assoc]

/-- Single classes in increasing order are a forest without merges. -/
theorem singletons {classes : List String} (hlt : classes.Pairwise (· < ·))
    (hne : ∀ x ∈ classes, x ≠ "") (hz : ((0 : α) == 0) = true) :
    Forest classes ([] : List α) (classes.map fun x => leaf x 0) := by
  refine ⟨?_, ?_, ?_, ?_, ?_⟩
  · intro t ht
    obtain ⟨x, hx, rfl⟩ := List.mem_map.mp ht
    exact ⟨hne x hx, hz⟩
  · intro t ht
    obtain ⟨x, hx, rfl⟩ := List.mem_map.mp ht
    exact grown_leaf x 0
  · exact List.pairwise_map.mpr hlt
  · rw [List.flatMap_map]
    simp [name]
  · rw [List.flatMap_map]
    simp [numbered]

end Forest

end Linkage
