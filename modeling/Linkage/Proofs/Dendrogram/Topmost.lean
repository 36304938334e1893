import Mathlib
import Linkage.Proofs.Dendrogram.WellFormed

/-!
# Topmost nodes

The nodes of a tree that have a property while no node above them has it, in the order of the
walk. The nodes above each node are listed with it, so that the notion does not mention how a
tree is searched; a search from the root downwards that stops at the first node with the
property finds exactly these.

## Main results

* `map_snd_lineage`: the listing visits every node once, in the order of the walk.
* `topmost_node`: the topmost nodes of a tree from those of its children.
* `exists_topmost_above`: a node with the property is a topmost one or below one.
* `exists_topmost_superset`: a weaker property has larger topmost nodes.
* `flatMap_classes_topmost_perm`: they divide the classes of a tree when every leaf has the
  property.
* `two_mul_length_topmost_le`: there are at most half as many topmost inner nodes as classes.
-/

namespace Linkage.Dendrogram

variable {α : Type}

/-- The nodes of a tree in the order of the walk, each with the nodes **above** it. -/
def lineage (above : List (Dendrogram α)) :
    Dendrogram α → List (List (Dendrogram α) × Dendrogram α)
  | leaf n c => [(above, leaf n c)]
  | node n l r c k =>
    (above, node n l r c k) ::
      (lineage (node n l r c k :: above) l ++ lineage (node n l r c k :: above) r)

/-- Every node is listed once, in the order of the walk. -/
theorem map_snd_lineage (above : List (Dendrogram α)) (t : Dendrogram α) :
    (lineage above t).map Prod.snd = t.nodes := by
  induction t generalizing above with
  | leaf n c => simp [lineage]
  | node n l r c k ihl ihr => simp [lineage, ihl, ihr]

/-- Whether a node has a property while no node above it has. -/
def isTopmost (p : Dendrogram α → Bool) (e : List (Dendrogram α) × Dendrogram α) : Bool :=
  p e.2 && !e.1.any p

/-- The **topmost** nodes with a property, in the order of the walk. -/
def topmost (p : Dendrogram α → Bool) (t : Dendrogram α) : List (Dendrogram α) :=
  ((lineage [] t).filter (isTopmost p)).map Prod.snd

/-- Below a node with the property nothing is topmost; below nodes without it, the topmost
nodes of a subtree are those of the whole tree. -/
theorem filter_lineage (p : Dendrogram α → Bool) (above : List (Dendrogram α))
    (t : Dendrogram α) :
    ((lineage above t).filter (isTopmost p)).map Prod.snd =
      if above.any p then [] else topmost p t := by
  induction t generalizing above with
  | leaf n c => cases h : above.any p <;> cases hp : p (leaf n c) <;>
      simp [topmost, lineage, isTopmost, h, hp]
  | node n l r c k ihl ihr =>
      rw [topmost, lineage, lineage]
      cases h : above.any p <;> cases ht : p (node n l r c k) <;>
        simp [isTopmost, ihl, ihr, h, ht]

/-- The topmost node of a leaf is the leaf, when it has the property. -/
theorem topmost_leaf (p : Dendrogram α → Bool) (n : String) (c : α) :
    topmost p (leaf n c) = if p (leaf n c) then [leaf n c] else [] := by
  cases h : p (leaf n c) <;> simp [topmost, lineage, isTopmost, h]

/-- The topmost nodes of a tree: its root, or else those of its children. -/
theorem topmost_node (p : Dendrogram α → Bool) (n : String) (l r : Dendrogram α) (c : α)
    (k : Nat) :
    topmost p (node n l r c k) =
      if p (node n l r c k) then [node n l r c k] else topmost p l ++ topmost p r := by
  rw [topmost, lineage]
  cases h : p (node n l r c k) <;> simp [isTopmost, filter_lineage, h]

/-- The topmost nodes have the property. -/
theorem of_mem_topmost {p : Dendrogram α → Bool} {t v : Dendrogram α} (h : v ∈ topmost p t) :
    p v = true := by
  obtain ⟨e, he, rfl⟩ := List.mem_map.mp h
  have htop := (List.mem_filter.mp he).2
  rw [isTopmost, Bool.and_eq_true] at htop
  exact htop.1

/-- The topmost nodes of a tree are nodes of it. -/
theorem mem_nodes_of_mem_topmost {p : Dendrogram α → Bool} {t v : Dendrogram α}
    (h : v ∈ topmost p t) : v ∈ t.nodes := by
  rw [← map_snd_lineage []]
  exact List.map_subset _ (List.filter_subset_self _) h

/-- **A node with the property is a topmost one or below one.** Induction on the tree. -/
theorem exists_topmost_above {p : Dendrogram α → Bool} {t v : Dendrogram α} (hv : v ∈ t.nodes)
    (hp : p v = true) : ∃ u ∈ topmost p t, v ∈ u.nodes := by
  induction t with
  | leaf n c =>
      obtain rfl : v = leaf n c := by simpa using hv
      exact ⟨leaf n c, by simp [topmost_leaf, hp], hv⟩
  | node n l r c k ihl ihr =>
      rw [topmost_node]
      by_cases hroot : p (node n l r c k) = true
      · exact ⟨node n l r c k, by simp [hroot], hv⟩
      · rw [if_neg hroot]
        rw [nodes_node, List.mem_cons, List.mem_append] at hv
        rcases hv with rfl | hv | hv
        · exact absurd hp hroot
        · obtain ⟨u, hu, hvu⟩ := ihl hv
          exact ⟨u, List.mem_append_left _ hu, hvu⟩
        · obtain ⟨u, hu, hvu⟩ := ihr hv
          exact ⟨u, List.mem_append_right _ hu, hvu⟩

/-- Some node is topmost exactly when some node has the property. -/
theorem topmost_ne_nil_iff {p : Dendrogram α → Bool} {t : Dendrogram α} :
    topmost p t ≠ [] ↔ ∃ v ∈ t.nodes, p v = true := by
  constructor
  · intro h
    obtain ⟨v, hv⟩ := List.exists_mem_of_ne_nil _ h
    exact ⟨v, mem_nodes_of_mem_topmost hv, of_mem_topmost hv⟩
  · rintro ⟨v, hv, hp⟩
    obtain ⟨u, hu, -⟩ := exists_topmost_above hv hp
    exact List.ne_nil_of_mem hu

/-- **A weaker property has larger topmost nodes**: a node that is topmost for a property is
below one that is topmost for what follows from it. -/
theorem exists_topmost_superset {p q : Dendrogram α → Bool} (hpq : ∀ v, p v = true → q v = true)
    {t v : Dendrogram α} (hv : v ∈ topmost p t) : ∃ u ∈ topmost q t, v.classes ⊆ u.classes := by
  obtain ⟨u, hu, hvu⟩ :=
    exists_topmost_above (mem_nodes_of_mem_topmost hv) (hpq v (of_mem_topmost hv))
  exact ⟨u, hu, classes_subset_of_mem_nodes hvu⟩

/-- A tree without children is below no node, so the nodes above a node are inner nodes. -/
theorem not_isLeaf_of_mem_lineage {above : List (Dendrogram α)}
    (habove : ∀ u ∈ above, u.isLeaf = false) {t : Dendrogram α} :
    ∀ e ∈ lineage above t, ∀ u ∈ e.1, u.isLeaf = false := by
  induction t generalizing above with
  | leaf n c => simpa [lineage] using habove
  | node n l r c k ihl ihr =>
      have hroot : ∀ u ∈ node n l r c k :: above, u.isLeaf = false :=
        List.forall_mem_cons.mpr ⟨rfl, habove⟩
      intro e he
      rw [lineage, List.mem_cons, List.mem_append] at he
      rcases he with rfl | he | he
      · exact habove
      · exact ihl hroot e he
      · exact ihr hroot e he

/-- When every leaf has the property, **the topmost nodes divide the classes of the tree**. -/
theorem flatMap_classes_topmost_perm [Scalar α] {p : Dendrogram α → Bool}
    (hp : ∀ n c, p (leaf n c) = true) {t : Dendrogram α} (ht : t.WellFormed) :
    ((topmost p t).flatMap classes).Perm t.classes := by
  induction t with
  | leaf n c => simp [topmost_leaf, hp]
  | node n l r c k ihl ihr =>
      obtain ⟨-, -, hd, hl, hr⟩ := ht
      rw [topmost_node]
      split
      · simp
      · rw [List.flatMap_append]
        exact ((ihl hl).append (ihr hr)).trans (classes_node_perm hd n c k).symm

/-- An inner node whose children share no class has two classes at least. -/
theorem two_le_classCount_node {l r : Dendrogram α} (h : l.classes.Disjoint r.classes) (n : String)
    (c : α) (k : Nat) : 2 ≤ (node n l r c k).classCount := by
  have hl := l.classCount_pos
  have hr := r.classCount_pos
  rw [classCount_node h]
  omega

/-- A node of a well-formed tree has two classes at least unless it is a leaf. -/
theorem WellFormed.two_le_classCount_iff [Scalar α] {v : Dendrogram α} (h : v.WellFormed) :
    2 ≤ v.classCount ↔ v.isLeaf = false := by
  cases v with
  | leaf n c => simp [classCount, isLeaf]
  | node n l r c k => simpa [isLeaf] using two_le_classCount_node h.2.2.1 n c k

/-- **There are at most half as many topmost inner nodes as classes**: they share no class, and
each has two at least. -/
theorem two_mul_length_topmost_le [Scalar α] {p : Dendrogram α → Bool}
    (hp : ∀ n c, p (leaf n c) = false) {t : Dendrogram α} (ht : t.WellFormed) :
    2 * (topmost p t).length ≤ t.classCount := by
  induction t with
  | leaf n c => simp [topmost_leaf, hp]
  | node n l r c k ihl ihr =>
      obtain ⟨-, -, hd, hl, hr⟩ := ht
      have htwo := two_le_classCount_node hd n c k
      have hcount := classCount_node hd n c k
      have hleft := ihl hl
      have hright := ihr hr
      rw [topmost_node]
      split
      · rw [List.length_singleton]
        omega
      · rw [List.length_append]
        omega

end Linkage.Dendrogram
