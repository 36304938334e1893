import Linkage.Dendrogram.Basic

/-!
# Walking a dendrogram

The nodes of a tree are listed parents first and left before right. The listing walks the tree
with a stack of subtrees still to visit; it is the recursive preorder.

## Main results

* `nodes_eq_preorder`: the walk with a stack lists the recursive preorder.
* `outline_fst`: the walk with depths visits the same nodes in the same order.
-/

namespace Linkage.Dendrogram

variable {α : Type}

/-- The nodes of a tree, parents first and left before right. -/
def preorder : Dendrogram α → List (Dendrogram α)
  | leaf n c => [leaf n c]
  | node n l r c k => node n l r c k :: (l.preorder ++ r.preorder)

/-- The number of nodes that a stack of trees still holds. -/
def pending : List (Dendrogram α) → Nat
  | [] => 0
  | t :: rest => t.size + pending rest

/-- The nodes of a stack of trees: the first tree is taken off, and its children are
put back. -/
def visit : List (Dendrogram α) → List (Dendrogram α)
  | [] => []
  | leaf n c :: rest => leaf n c :: visit rest
  | node n l r c k :: rest => node n l r c k :: visit (l :: r :: rest)
  termination_by stack => pending stack
  decreasing_by
    · simp [pending, size]
    · simp [pending, size]; omega

/-- The nodes of a tree in the order of a walk with a stack. -/
def nodes (t : Dendrogram α) : List (Dendrogram α) := visit [t]

/-- The nodes of a stack of trees with their depths. -/
def visitDeep : List (Dendrogram α × Nat) → List (Dendrogram α × Nat)
  | [] => []
  | (leaf n c, d) :: rest => (leaf n c, d) :: visitDeep rest
  | (node n l r c k, d) :: rest =>
    (node n l r c k, d) :: visitDeep ((l, d + 1) :: (r, d + 1) :: rest)
  termination_by stack => pending (stack.map Prod.fst)
  decreasing_by
    · simp [pending, size]
    · simp [pending, size]; omega

/-- The nodes of a tree with their depths below the root. -/
def outline (t : Dendrogram α) : List (Dendrogram α × Nat) := visitDeep [(t, 0)]

/-- The leaves of a tree, left to right. -/
def leaves (t : Dendrogram α) : List (Dendrogram α) := t.nodes.filter isLeaf

/-- The inner nodes of a tree by increasing level; nodes of one level keep the order of the
walk. -/
def internalNodes (t : Dendrogram α) : List (Dendrogram α) :=
  (t.nodes.filter fun v => !v.isLeaf).mergeSort fun a b => decide (a.level ≤ b.level)

/-- The couplings of the inner nodes by increasing level. -/
def mergeCouplings (t : Dendrogram α) : List α := t.internalNodes.map coupling

/-! ### The walk and the recursion -/

/-- The walk visits the trees of its stack one after another, each in preorder. -/
theorem visit_eq_flatMap (stack : List (Dendrogram α)) :
    visit stack = stack.flatMap preorder := by
  fun_induction visit stack with
  | case1 => rfl
  | case2 rest n c ih => simp [preorder, ih]
  | case3 rest n l r c k ih => simp [preorder, ih]

/-- **The walk with a stack** is the preorder of a tree. -/
theorem nodes_eq_preorder (t : Dendrogram α) : t.nodes = t.preorder := by
  simp [nodes, visit_eq_flatMap]

/-- The walk that keeps depths visits the nodes that the plain walk visits. -/
theorem visitDeep_fst (stack : List (Dendrogram α × Nat)) :
    (visitDeep stack).map Prod.fst = visit (stack.map Prod.fst) := by
  fun_induction visitDeep stack with
  | case1 => simp [visit]
  | case2 rest n c d ih => simp [visit, ih]
  | case3 rest n l r c k d ih => simp [visit, ih]

/-- The outline of a tree has its nodes in their order. -/
theorem outline_fst (t : Dendrogram α) : t.outline.map Prod.fst = t.nodes := by
  simp [outline, nodes, visitDeep_fst]

end Linkage.Dendrogram
