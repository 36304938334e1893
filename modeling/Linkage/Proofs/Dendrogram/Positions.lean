import Mathlib
import Linkage.Dendrogram.Text
import Linkage.Proofs.Dendrogram.Construction

/-!
# The walk of a tree, position by position

A walk takes the first tree off a stack, yields it, and puts its children back in its place.
Two things are settled about it here: how long it goes on, and what it yields.

A node is identified by its *position*, the list of turns that lead to it from the root,
because the same subtree may in general stand at several places. The positions of a tree are
listed by recursion on the tree, the position of a node before those of its first subtree and
these before those of its second; a position has the depth of its node as its length. The walk
is stated for a whole stack: after any number of passes the tree on top of the stack is the
next one that is yielded, and what the stack still holds has one node less with every pass.

## Main results

* `head?_iterate_pass`, `iterate_pass_eq_nil_iff`: the walk, pass by pass, and when it ends.
* `mem_positions_iff`, `nodup_positions`: the positions of a tree, each once.
* `map_subtree?_positions`, `map_snd_outline`: the nodes of a walk and their depths, by
  position.
* `WellFormed.nodup_nodes`: a tree that can be built has no node twice.
* `walk_and_drawing_in_preorder`: the walk and the drawing of whatever is made.
-/

namespace Linkage.Dendrogram

variable {α : Type}

/-! ### Passes of the walk -/

/-- One **pass** of the walk: the first tree of the stack is taken off, and its children are
put back in its place. -/
def pass : List (Dendrogram α) → List (Dendrogram α)
  | [] => []
  | t :: rest => t.children ++ rest

/-- A walk yields the first tree of the stack and goes on with the stack after one pass. -/
theorem visit_cons (t : Dendrogram α) (rest : List (Dendrogram α)) :
    visit (t :: rest) = t :: visit (pass (t :: rest)) := by
  cases t <;> simp [visit, pass, children]

/-- A pass takes one node off what the stack holds. -/
theorem pending_pass (t : Dendrogram α) (rest : List (Dendrogram α)) :
    pending (pass (t :: rest)) + 1 = pending (t :: rest) := by
  cases t with
  | leaf n c =>
      simp only [pass, children, List.nil_append, pending, size]
      omega
  | node n l r c k =>
      simp only [pass, children, List.cons_append, List.nil_append, pending, size]
      omega

/-- **The tree on top of the stack** after some passes is the one that the walk yields next. -/
theorem head?_iterate_pass (k : ℕ) (stack : List (Dendrogram α)) :
    (pass^[k] stack).head? = (visit stack)[k]? := by
  induction k generalizing stack with
  | zero =>
      cases stack with
      | nil => simp [visit]
      | cons t rest => simp [visit_cons]
  | succ k ih =>
      rw [Function.iterate_succ_apply, ih]
      cases stack with
      | nil => simp [pass, visit]
      | cons t rest => rw [visit_cons t rest, List.getElem?_cons_succ]

/-- **The walk ends** after as many passes as the stack holds nodes, and not before. -/
theorem iterate_pass_eq_nil_iff (k : ℕ) (stack : List (Dendrogram α)) :
    pass^[k] stack = [] ↔ pending stack ≤ k := by
  induction k generalizing stack with
  | zero =>
      cases stack with
      | nil => simp [pending]
      | cons t rest =>
          have hpos := t.size_pos
          simp [pending]
          omega
  | succ k ih =>
      rw [Function.iterate_succ_apply, ih]
      cases stack with
      | nil => simp [pass, pending]
      | cons t rest =>
          have hpass := pending_pass t rest
          omega

/-! ### Positions -/

/-- The subtree at a **position**: a list of places among children, from the root downwards. -/
def subtree? (t : Dendrogram α) : List ℕ → Option (Dendrogram α)
  | [] => some t
  | i :: rest => t.children[i]?.bind fun c => c.subtree? rest

/-- The positions of a tree in preorder. -/
def positions : Dendrogram α → List (List ℕ)
  | leaf _ _ => [[]]
  | node _ l r _ _ => [] :: (l.positions.map (0 :: ·) ++ r.positions.map (1 :: ·))

/-- The positions of a tree are those at which there is a subtree. -/
theorem mem_positions_iff {t : Dendrogram α} {p : List ℕ} :
    p ∈ t.positions ↔ (t.subtree? p).isSome := by
  induction t generalizing p with
  | leaf n c => cases p <;> simp [positions, subtree?, children]
  | node n l r c k ihl ihr =>
      obtain _ | ⟨_ | _ | i, p⟩ := p
      · simp [positions, subtree?]
      · simp [positions, subtree?, children, ihl]
      · simp [positions, subtree?, children, ihr]
      · simp [positions, subtree?, children]

/-- **No position twice.** -/
theorem nodup_positions (t : Dendrogram α) : t.positions.Nodup := by
  induction t with
  | leaf n c => simp [positions]
  | node n l r c k ihl ihr =>
      have hcons : ∀ i : ℕ, Function.Injective (i :: · : List ℕ → List ℕ) :=
        fun i _ _ h => List.cons.inj h |>.2
      refine List.nodup_cons.mpr ⟨by simp,
        List.nodup_append'.mpr ⟨ihl.map (hcons 0), ihr.map (hcons 1), ?_⟩⟩
      intro p hl hr
      obtain ⟨q, -, rfl⟩ := List.mem_map.mp hl
      obtain ⟨q', -, hq'⟩ := List.mem_map.mp hr
      cases hq'

/-- **The nodes of a walk** are the subtrees at the positions of the tree. -/
theorem map_subtree?_positions (t : Dendrogram α) :
    t.positions.map t.subtree? = t.nodes.map some := by
  induction t with
  | leaf n c => simp [positions, subtree?]
  | node n l r c k ihl ihr =>
      have hleft : (node n l r c k).subtree? ∘ (0 :: ·) = l.subtree? := rfl
      have hright : (node n l r c k).subtree? ∘ (1 :: ·) = r.subtree? := rfl
      rw [positions, nodes_node, List.map_cons, List.map_append, List.map_map, List.map_map,
        hleft, hright, ihl, ihr, List.map_cons, List.map_append]
      rfl

/-- The depths along the walk are the lengths of the positions, from the depths on
the stack. -/
theorem visitDeep_snd (stack : List (Dendrogram α × ℕ)) :
    (visitDeep stack).map Prod.snd =
      stack.flatMap fun e => e.1.positions.map fun p => e.2 + p.length := by
  fun_induction visitDeep stack with
  | case1 => rfl
  | case2 rest n c d ih => simp [positions, ih]
  | case3 rest n l r c k d ih =>
      simp [positions, ih, Function.comp_def, Nat.add_assoc, Nat.add_comm 1]

/-- **The depths of a walk** are the lengths of the positions. -/
theorem map_snd_outline (t : Dendrogram α) :
    t.outline.map Prod.snd = t.positions.map List.length := by
  simp [outline, visitDeep_snd]

/-! ### No node twice -/

/-- No node is larger than the tree. -/
theorem size_le_of_mem_nodes {t v : Dendrogram α} (h : v ∈ t.nodes) : v.size ≤ t.size := by
  induction t with
  | leaf n c =>
      rw [nodes_leaf, List.mem_singleton] at h
      rw [h]
  | node n l r c k ihl ihr =>
      rw [nodes_node, List.mem_cons, List.mem_append] at h
      rcases h with rfl | h | h
      · exact le_refl _
      · exact (ihl h).trans (by rw [size]; omega)
      · exact (ihr h).trans (by rw [size]; omega)

/-- **A tree that can be built has no node twice**: a node is no part of its own subtrees, and
two subtrees that share no class share no node. -/
theorem WellFormed.nodup_nodes [Scalar α] {t : Dendrogram α} (h : t.WellFormed) :
    t.nodes.Nodup := by
  induction t with
  | leaf n c => simp
  | node n l r c k ihl ihr =>
      obtain ⟨-, -, hdisjoint, hl, hr⟩ := h
      rw [nodes_node, List.nodup_cons, List.nodup_append']
      refine ⟨fun hmem => ?_, ihl hl, ihr hr, fun v hvl hvr => ?_⟩
      · rcases List.mem_append.mp hmem with hmem | hmem <;>
          · have hsize := size_le_of_mem_nodes hmem
            rw [size] at hsize
            omega
      · obtain ⟨x, hx⟩ := List.exists_mem_of_ne_nil _ v.classes_ne_nil
        exact hdisjoint (classes_subset_of_mem_nodes hvl hx) (classes_subset_of_mem_nodes hvr hx)

/-! ### The drawing -/

/-- The number of blanks at the beginning of a line. -/
def indentation (line : String) : ℕ := (line.toList.takeWhile (· == ' ')).length

/-- Texts that are joined without a separator follow each other. -/
theorem toList_join_empty (xs : List String) :
    (Text.join "" xs).toList = xs.flatMap String.toList := by
  induction xs with
  | nil => rfl
  | cons x rest ih =>
      cases rest with
      | nil => simp [Text.join]
      | cons y rest =>
          rw [Text.join] at ih ⊢
          rw [String.intercalate_cons_cons, String.append_empty, String.toList_append, ih]
          rfl

/-- The line of a node is its line at the root after two blanks for each step down. -/
theorem toList_drawnLine (v : Dendrogram Float) (d : ℕ) :
    (drawnLine (v, d)).toList = List.replicate (2 * d) ' ' ++ (drawnLine (v, 0)).toList := by
  have hblanks : (Text.join "" (List.replicate d "  ")).toList = List.replicate (2 * d) ' ' := by
    have hpair : ("  " : String).toList = List.replicate 2 ' ' := rfl
    rw [toList_join_empty, List.flatMap_replicate, hpair, List.flatten_replicate_replicate,
      Nat.mul_comm]
  have hnone : (Text.join "" (List.replicate 0 "  ")).toList = [] := rfl
  cases v <;> simp only [drawnLine, String.toList_append, hblanks, hnone, List.nil_append,
    List.append_assoc]

/-- A drawn line is indented by twice the depth of its node. -/
theorem indentation_drawnLine (v : Dendrogram Float) (d : ℕ) :
    indentation (drawnLine (v, d)) = 2 * d := by
  have hnone : (Text.join "" (List.replicate 0 "  ")).toList = [] := rfl
  have hline : (drawnLine (v, 0)).toList.takeWhile (· == ' ') = [] := by
    cases v <;>
      · simp only [drawnLine, String.toList_append, hnone, List.nil_append]
        simp
  have hblanks : ∀ c ∈ List.replicate (2 * d) ' ', (c == ' ') = true := fun c hc => by
    rw [List.eq_of_mem_replicate hc]
    rfl
  rw [indentation, toList_drawnLine, List.takeWhile_append_of_pos hblanks, hline, List.append_nil,
    List.length_replicate]

/-- **The walk of whatever is made**, and its drawing. The loop with a stack ends after as many
passes as the tree has nodes, and yields with each pass the tree on top of the stack. What it
yields is the recursive preorder, in which no node is listed twice: the nodes at all the
positions of the tree, each position once. The drawing joins as many lines as there are nodes,
and the line of a node is indented by twice its depth, the length of its position. -/
theorem walk_and_drawing_in_preorder {calls : List (Call Float)} {t : Dendrogram Float}
    (h : t ∈ made calls) :
    (∀ k, pass^[k] [t] = [] ↔ t.size ≤ k) ∧ (∀ k, (pass^[k] [t]).head? = t.nodes[k]?) ∧
    t.nodes = t.preorder ∧ t.nodes.Nodup ∧
    t.nodes.map some = t.positions.map t.subtree? ∧ t.positions.Nodup ∧
    (∀ p, p ∈ t.positions ↔ (t.subtree? p).isSome) ∧
    let lines := t.outline.map drawnLine
    draw (some t) = Text.join "\n" lines ++ "\n" ∧ lines.length = t.nodes.length ∧
    ∀ (k : ℕ) (v : Dendrogram Float) (p : List ℕ), t.nodes[k]? = some v → t.positions[k]? = some p →
      ∃ line, lines[k]? = some line ∧ indentation line = 2 * p.length ∧
        line.toList = List.replicate (2 * p.length) ' ' ++ (drawnLine (v, 0)).toList := by
  have hnodes := t.map_subtree?_positions
  refine ⟨fun k => ?_, fun k => head?_iterate_pass k [t], t.nodes_eq_preorder,
    (wellFormed_of_mem_made h).nodup_nodes, hnodes.symm, t.nodup_positions,
    fun p => mem_positions_iff, rfl, ?_, fun k v p hv hp => ?_⟩
  · rw [iterate_pass_eq_nil_iff]
    simp [pending]
  · rw [List.length_map, ← t.outline_fst, List.length_map]
  · have houtline : t.outline[k]? = some (v, p.length) := by
      have hfst := congrArg (·[k]?) t.outline_fst
      have hsnd := congrArg (·[k]?) t.map_snd_outline
      simp only [List.getElem?_map, hv, hp, Option.map_some, Option.map_eq_some_iff] at hfst hsnd
      obtain ⟨e, he, hev⟩ := hfst
      obtain ⟨e', he', hep⟩ := hsnd
      obtain rfl : e = e' := Option.some.inj (he.symm.trans he')
      rw [he, ← hev, ← hep]
    refine ⟨drawnLine (v, p.length), ?_, indentation_drawnLine v _, toList_drawnLine v _⟩
    rw [List.getElem?_map, houtline, Option.map_some]

/-- Two merges: the walk ends after five passes, and the leaf that is two steps below the root
is indented by four blanks. -/
theorem walk_and_drawing_in_preorder_of_two_merges :
    let calls : List (Call Float) := [.leaf "A", .leaf "B", .merge "cluster-001" 0 1 1 1, .leaf "C",
      .merge "cluster-002" 3 2 0 2]
    let t : Dendrogram Float :=
      .node "cluster-002" (.leaf "C" 0) (.node "cluster-001" (.leaf "A" 0) (.leaf "B" 0) 1 1) 0 2
    t ∈ made calls ∧ pass^[4] [t] ≠ [] ∧ pass^[5] [t] = [] ∧
      t.nodes.map name = ["cluster-002", "C", "cluster-001", "A", "B"] ∧
      ∃ line, (t.outline.map drawnLine)[3]? = some line ∧ indentation line = 4 := by
  intro calls t
  have hleaf : ∀ n, n ≠ "" →
      (ofClass? n : Except DendrogramError (Dendrogram Float)) = .ok (leaf n 0) :=
    fun n hn => make?_leaf_eq_ok_iff.mpr ⟨hn, rfl, by decide, rfl⟩
  have hfirst : merge? "cluster-001" (leaf "A" 0) (leaf "B" 0) 1 1 =
      .ok (node "cluster-001" (leaf "A" 0) (leaf "B" 0) 1 1 : Dendrogram Float) :=
    merge?_eq_ok_iff.mpr ⟨by decide, le_refl _, by simp, rfl⟩
  have hsecond : merge? "cluster-002" (leaf "C" 0)
      (node "cluster-001" (leaf "A" 0) (leaf "B" 0) 1 1) 0 2 = .ok t :=
    merge?_eq_ok_iff.mpr ⟨by decide, by decide, by simp [mem_classes_node], rfl⟩
  have hmade : t ∈ made calls := by
    simp [calls, made, Call.perform, Call.outcome?, hleaf, hfirst, hsecond]
  obtain ⟨hend, -, hpreorder, -, -, -, -, -, -, hlines⟩ := walk_and_drawing_in_preorder hmade
  refine ⟨hmade, fun h => absurd ((hend 4).mp h) (by decide), (hend 5).mpr (by decide), ?_, ?_⟩
  · rw [hpreorder]
    rfl
  · obtain ⟨line, hline, hindented, -⟩ := hlines 3 (leaf "A" 0) [1, 0] (by rw [hpreorder]; rfl) rfl
    exact ⟨line, hline, hindented⟩

end Linkage.Dendrogram
