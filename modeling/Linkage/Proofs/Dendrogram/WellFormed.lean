import Mathlib
import Linkage.Dendrogram.Traversal
import Linkage.Proofs.Text.Members

/-!
# Trees that can be built

A tree is *built* when it is the outcome of an accepted call of `Dendrogram.make?` whose
subtrees, if it has any, are built. The checks of the constructor come down to a property of
the shape alone, `WellFormed`: names are not empty, leaves are flat, levels are positive and
children share no class.

## Main results

* `built_iff_wellFormed`: the trees that can be built are the well-formed ones.
* `classes_perm_leaves`: the classes of a well-formed tree are the names of its leaves, each
  once.
* `classCount_node`: the number of classes is additive.
-/

namespace Linkage.Dendrogram

variable {α : Type}

/-! ### The walk, node by node -/

/-- The **inner nodes** of a tree in the order of the walk. -/
def inner (t : Dendrogram α) : List (Dendrogram α) := t.nodes.filter fun v => !v.isLeaf

@[simp] theorem nodes_leaf (n : String) (c : α) : (leaf n c).nodes = [leaf n c] := by
  rw [nodes_eq_preorder]
  rfl

@[simp] theorem nodes_node (n : String) (l r : Dendrogram α) (c : α) (k : Nat) :
    (node n l r c k).nodes = node n l r c k :: (l.nodes ++ r.nodes) := by
  simp only [nodes_eq_preorder, preorder]

@[simp] theorem leaves_leaf (n : String) (c : α) : (leaf n c).leaves = [leaf n c] := by
  simp [leaves, isLeaf]

@[simp] theorem leaves_node (n : String) (l r : Dendrogram α) (c : α) (k : Nat) :
    (node n l r c k).leaves = l.leaves ++ r.leaves := by
  simp [leaves, isLeaf]

@[simp] theorem inner_leaf (n : String) (c : α) : (leaf n c).inner = [] := by
  simp [inner, isLeaf]

@[simp] theorem inner_node (n : String) (l r : Dendrogram α) (c : α) (k : Nat) :
    (node n l r c k).inner = node n l r c k :: (l.inner ++ r.inner) := by
  simp [inner, isLeaf]

/-- A tree has one leaf more than it has inner nodes. -/
theorem length_leaves (t : Dendrogram α) : t.leaves.length = t.inner.length + 1 := by
  induction t with
  | leaf n c => simp
  | node n l r c k ihl ihr =>
      simp only [leaves_node, inner_node, List.length_append, List.length_cons, ihl, ihr]
      omega

/-- What holds at every node of a tree holds at its root and at every node of its children. -/
theorem forall_nodes_node {P : Dendrogram α → Prop} {n : String} {l r : Dendrogram α} {c : α}
    {k : Nat} : (∀ v ∈ (node n l r c k).nodes, P v) ↔
      P (node n l r c k) ∧ (∀ v ∈ l.nodes, P v) ∧ ∀ v ∈ r.nodes, P v := by
  simp only [nodes_node, List.mem_cons, List.mem_append, or_imp, forall_and, forall_eq]

/-- The root is one of the nodes. -/
theorem self_mem_nodes (t : Dendrogram α) : t ∈ t.nodes := by
  cases t <;> simp

/-- The nodes below a node are nodes of the tree. -/
theorem nodes_subset_of_mem_nodes {t v : Dendrogram α} (h : v ∈ t.nodes) : v.nodes ⊆ t.nodes := by
  induction t with
  | leaf n c =>
      rw [nodes_leaf, List.mem_singleton] at h
      rw [h]
      exact List.Subset.refl _
  | node n l r c k ihl ihr =>
      rw [nodes_node, List.mem_cons, List.mem_append] at h
      rcases h with rfl | h | h
      · exact List.Subset.refl _
      · exact fun u hu => by simp [ihl h hu]
      · exact fun u hu => by simp [ihr h hu]

/-! ### The classes of a tree -/

@[simp] theorem classes_leaf (n : String) (c : α) : (leaf n c).classes = [n] := rfl

/-- The classes of a tree are strictly increasing. -/
theorem pairwise_classes (t : Dendrogram α) : t.classes.Pairwise (· < ·) := by
  cases t with
  | leaf n c => simp [classes]
  | node n l r c k => exact Text.pairwise_members _

/-- No class of a node is listed twice. -/
theorem nodup_classes (t : Dendrogram α) : t.classes.Nodup :=
  t.pairwise_classes.imp fun h => ne_of_lt h

/-- The classes of a node are those of its children. -/
theorem mem_classes_node {x n : String} {l r : Dendrogram α} {c : α} {k : Nat} :
    x ∈ (node n l r c k).classes ↔ x ∈ l.classes ∨ x ∈ r.classes := by
  rw [classes, Text.mem_members, List.mem_append]

/-- The classes of a tree are the names of its leaves. -/
theorem mem_classes {x : String} {t : Dendrogram α} :
    x ∈ t.classes ↔ x ∈ t.leaves.map name := by
  induction t with
  | leaf n c => simp [classes, name]
  | node n l r c k ihl ihr =>
      rw [mem_classes_node, ihl, ihr]
      simp

/-- The classes below a node are classes of the tree. -/
theorem classes_subset_of_mem_nodes {t v : Dendrogram α} (h : v ∈ t.nodes) :
    v.classes ⊆ t.classes := by
  induction t with
  | leaf n c =>
      rw [nodes_leaf, List.mem_singleton] at h
      rw [h]
      exact List.Subset.refl _
  | node n l r c k ihl ihr =>
      rw [nodes_node, List.mem_cons, List.mem_append] at h
      rcases h with rfl | h | h
      · exact List.Subset.refl _
      · exact fun x hx => mem_classes_node.mpr (.inl (ihl h hx))
      · exact fun x hx => mem_classes_node.mpr (.inr (ihr h hx))

/-- A leaf has the class that it is named after. -/
theorem classes_of_isLeaf {v : Dendrogram α} (h : v.isLeaf = true) : v.classes = [v.name] := by
  cases v with
  | leaf n c => rfl
  | node n l r c k => cases h

/-- A node has a class. -/
theorem classes_ne_nil (t : Dendrogram α) : t.classes ≠ [] := by
  induction t with
  | leaf n c => simp [classes]
  | node n l r c k ihl ihr =>
      obtain ⟨x, hx⟩ := List.exists_mem_of_ne_nil _ ihl
      exact List.ne_nil_of_mem (mem_classes_node.mpr (.inl hx))

/-- A node has at least one class. -/
theorem classCount_pos (t : Dendrogram α) : 0 < t.classCount :=
  List.length_pos_iff.mpr t.classes_ne_nil

/-- The classes of a node whose children share none are those of its children. -/
theorem classes_node_perm {l r : Dendrogram α} (h : l.classes.Disjoint r.classes) (n : String)
    (c : α) (k : Nat) : (node n l r c k).classes.Perm (l.classes ++ r.classes) := by
  exact Text.members_perm (List.nodup_append'.mpr ⟨l.nodup_classes, r.nodup_classes, h⟩)

/-- A node over trees without a common class has as many classes as both. -/
theorem classCount_node {l r : Dendrogram α} (h : l.classes.Disjoint r.classes) (n : String)
    (c : α) (k : Nat) : (node n l r c k).classCount = l.classCount + r.classCount := by
  rw [classCount, (classes_node_perm h n c k).length_eq, List.length_append]
  rfl

/-! ### Building and well-formedness -/

variable [Scalar α]

/-- A tree that an accepted call of the constructor yields, from subtrees that
are **built**. -/
inductive Built : Dendrogram α → Prop
  | make {name : String} {left right : Option (Dendrogram α)} {coupling : α} {level : Int}
      {t : Dendrogram α} :
      (∀ l, left = some l → Built l) → (∀ r, right = some r → Built r) →
      make? name left right coupling level = .ok t → Built t

/-- A **well-formed** tree: what the constructor checks, at every node. -/
def WellFormed : Dendrogram α → Prop
  | leaf n c => n ≠ "" ∧ (c == 0) = true
  | node n l r _ k =>
    n ≠ "" ∧ 1 ≤ k ∧ l.classes.Disjoint r.classes ∧ l.WellFormed ∧ r.WellFormed

/-- The constructor accepts two subtrees exactly when the name is not empty, the level is
positive and the subtrees share no class. -/
theorem merge?_eq_ok_iff {n : String} {l r t : Dendrogram α} {c : α} {k : Int} :
    merge? n l r c k = .ok t ↔
      n ≠ "" ∧ 1 ≤ k ∧ l.classes.Disjoint r.classes ∧ t = node n l r c k.toNat := by
  have hshared : (l.classes.filter r.classes.contains).isEmpty = true ↔
      l.classes.Disjoint r.classes := by
    rw [List.isEmpty_iff, List.filter_eq_nil_iff]
    simp [List.Disjoint]
  by_cases hn : n = ""
  · subst hn
    simp [merge?, make?]
  · by_cases hk : k < 1
    · simp [merge?, make?, hn, hk]
    · have hk' : 1 ≤ k := not_lt.mp hk
      by_cases hd : l.classes.Disjoint r.classes
      · simp only [merge?, make?, String.isEmpty_iff, hn, if_false, hk, hshared.mpr hd, if_true,
          Except.ok.injEq, ne_eq, not_false_eq_true, hk', hd, true_and]
        exact eq_comm
      · have hs : ¬(l.classes.filter r.classes.contains).isEmpty = true := fun h =>
          hd (hshared.mp h)
        simp only [merge?, make?, String.isEmpty_iff, hn, if_false, hk, hs, reduceCtorEq, hd,
          false_and, and_false]

/-- The constructor accepts a leaf exactly when its name is not empty and it is flat. -/
theorem make?_leaf_eq_ok_iff {n : String} {t : Dendrogram α} {c : α} {k : Int} :
    make? n none none c k = .ok t ↔ n ≠ "" ∧ k = 0 ∧ (c == 0) = true ∧ t = leaf n c := by
  by_cases hn : n = ""
  · subst hn
    simp [make?]
  · by_cases hk : k = 0
    · subst hk
      cases hc : c == 0 with
      | true =>
          simp only [make?, String.isEmpty_iff, hn, if_false, hc, Bool.not_true, ne_eq,
            not_true_eq_false, decide_false, Bool.or_self, Bool.false_eq_true, Except.ok.injEq,
            not_false_eq_true, true_and]
          exact eq_comm
      | false => simp [make?, hn, hc]
    · simp [make?, hn, hk]

/-- The nodes of a well-formed tree are well-formed. -/
theorem WellFormed.of_mem_nodes {t v : Dendrogram α} (h : t.WellFormed) (hv : v ∈ t.nodes) :
    v.WellFormed := by
  induction t with
  | leaf n c =>
      rw [nodes_leaf, List.mem_singleton] at hv
      exact hv ▸ h
  | node n l r c k ihl ihr =>
      rw [nodes_node, List.mem_cons, List.mem_append] at hv
      rcases hv with rfl | hv | hv
      · exact h
      · exact ihl h.2.2.2.1 hv
      · exact ihr h.2.2.2.2 hv

/-- The root of a well-formed tree has a name. -/
theorem WellFormed.name_ne_empty {t : Dendrogram α} (h : t.WellFormed) : t.name ≠ "" := by
  cases t with
  | leaf n c => exact h.1
  | node n l r c k => exact h.1

/-- The classes of a well-formed tree have names: each is the name of a leaf. -/
theorem WellFormed.ne_empty_of_mem_classes {t : Dendrogram α} (h : t.WellFormed) {x : String}
    (hx : x ∈ t.classes) : x ≠ "" := by
  obtain ⟨v, hv, rfl⟩ := List.mem_map.mp (mem_classes.mp hx)
  exact (h.of_mem_nodes (List.mem_filter.mp hv).1).name_ne_empty

/-- **What is built is well formed.** -/
theorem Built.wellFormed {t : Dendrogram α} (h : Built t) : t.WellFormed := by
  induction h with
  | @make n left right c k t _ _ hok ihl ihr =>
      match left, right with
      | none, none =>
          obtain ⟨hn, -, hc, rfl⟩ := make?_leaf_eq_ok_iff.mp hok
          exact ⟨hn, hc⟩
      | some l, some r =>
          obtain ⟨hn, hk, hd, rfl⟩ := merge?_eq_ok_iff.mp hok
          exact ⟨hn, by omega, hd, ihl l rfl, ihr r rfl⟩
      | none, some r =>
          simp [make?] at hok
          split at hok <;> cases hok
      | some l, none =>
          simp [make?] at hok
          split at hok <;> cases hok

/-- **What is well formed is built.** -/
theorem WellFormed.built {t : Dendrogram α} (h : t.WellFormed) : Built t := by
  induction t with
  | leaf n c =>
      obtain ⟨hn, hc⟩ := h
      exact .make (by simp) (by simp) (make?_leaf_eq_ok_iff.mpr ⟨hn, rfl, hc, rfl⟩)
  | node n l r c k ihl ihr =>
      obtain ⟨hn, hk, hd, hl, hr⟩ := h
      have hok : merge? n l r c (k : Int) = .ok (node n l r c k) :=
        merge?_eq_ok_iff.mpr ⟨hn, Int.ofNat_le.mpr hk, hd, rfl⟩
      refine .make ?_ ?_ hok
      · rintro l' ⟨⟩
        exact ihl hl
      · rintro r' ⟨⟩
        exact ihr hr

/-- **The trees that can be built are the well-formed ones.** -/
theorem built_iff_wellFormed {t : Dendrogram α} : Built t ↔ t.WellFormed :=
  ⟨Built.wellFormed, WellFormed.built⟩

/-- The classes of a well-formed tree are the names of its leaves, each once. -/
theorem WellFormed.classes_perm_leaves {t : Dendrogram α} (h : t.WellFormed) :
    t.classes.Perm (t.leaves.map name) := by
  induction t with
  | leaf n c => simp [classes, name]
  | node n l r c k ihl ihr =>
      obtain ⟨-, -, hd, hl, hr⟩ := h
      rw [leaves_node, List.map_append]
      exact (classes_node_perm hd n c k).trans ((ihl hl).append (ihr hr))

end Linkage.Dendrogram
