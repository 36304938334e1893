import Linkage.Scalar
import Linkage.Text.Sorted

/-!
# Dendrograms

The merge tree of a clustering. A leaf is one class; an inner node joins two subtrees and
records the coupling at which they were joined and the number of the merge, its level.

Trees are built by `Dendrogram.make?`, which refuses a name that is empty, a leaf that is not
flat, a node with one child, a level below one, and children that share a class.
-/

namespace Linkage

/-- A **merge tree** over classes. -/
inductive Dendrogram (α : Type) where
  /-- A single class. Its coupling is a zero. -/
  | leaf (name : String) (coupling : α)
  /-- The union of two subtrees, joined at a coupling by the merge of a level. -/
  | node (name : String) (left right : Dendrogram α) (coupling : α) (level : Nat)

/-- Why a tree is refused. -/
inductive DendrogramError where
  /-- The name of the node is empty. -/
  | emptyName
  /-- A node without children has a level or a coupling. -/
  | leafNotFlat
  /-- A node has one child. -/
  | missingChild
  /-- A node with children has a level below one. -/
  | levelNotPositive
  /-- The children of the named node share classes. -/
  | sharedClasses (name : String) (shared : List String)
  deriving DecidableEq, Repr

namespace Dendrogram

variable {α : Type}

/-- The name of the root node. -/
def name : Dendrogram α → String
  | leaf n _ => n
  | node n _ _ _ _ => n

/-- The coupling of the root node. -/
def coupling : Dendrogram α → α
  | leaf _ c => c
  | node _ _ _ c _ => c

/-- The level of the root node; a leaf has level zero. -/
def level : Dendrogram α → Nat
  | leaf _ _ => 0
  | node _ _ _ _ n => n

/-- Whether a tree is a single class. -/
def isLeaf : Dendrogram α → Bool
  | leaf _ _ => true
  | node _ _ _ _ _ => false

/-- The two subtrees of an inner node; none of a leaf. -/
def children : Dendrogram α → List (Dendrogram α)
  | leaf _ _ => []
  | node _ l r _ _ => [l, r]

/-- The first subtree. -/
def left? : Dendrogram α → Option (Dendrogram α)
  | leaf _ _ => none
  | node _ l _ _ _ => some l

/-- The second subtree. -/
def right? : Dendrogram α → Option (Dendrogram α)
  | leaf _ _ => none
  | node _ _ r _ _ => some r

/-- The number of nodes. -/
def size : Dendrogram α → Nat
  | leaf _ _ => 1
  | node _ l r _ _ => l.size + r.size + 1

/-- A tree has a node. -/
theorem size_pos (t : Dendrogram α) : 0 < t.size := by
  cases t <;> simp [size]

/-- The set of classes below a node: the union of the sets of its children. -/
def classes : Dendrogram α → List String
  | leaf n _ => [n]
  | node _ l r _ _ => Text.members (l.classes ++ r.classes)

/-- The number of classes below a node. -/
def classCount (t : Dendrogram α) : Nat := t.classes.length

variable [Scalar α]

/-- The tree with the given root, or why there is none. A node without children is a leaf. -/
def make? (name : String) (left right : Option (Dendrogram α)) (coupling : α) (level : Int) :
    Except DendrogramError (Dendrogram α) :=
  if name.isEmpty then .error .emptyName
  else
    match left, right with
    | none, none =>
      if level ≠ 0 || !(coupling == 0) then .error .leafNotFlat else .ok (leaf name coupling)
    | some l, some r =>
      if level < 1 then .error .levelNotPositive
      else
        let shared := l.classes.filter r.classes.contains
        if shared.isEmpty then .ok (node name l r coupling level.toNat)
        else .error (.sharedClasses name shared)
    | _, _ => .error .missingChild

/-- The leaf of a class. -/
def ofClass? (name : String) : Except DendrogramError (Dendrogram α) := make? name none none 0 0

/-- The union of two trees. -/
def merge? (name : String) (left right : Dendrogram α) (coupling : α) (level : Int) :
    Except DendrogramError (Dendrogram α) :=
  make? name (some left) (some right) coupling level

end Dendrogram

/-- The wording of a refusal. -/
def DendrogramError.message : DendrogramError → String
  | emptyName => "Dendrogram node requires a non-empty identifier"
  | leafNotFlat => "Leaf nodes must have level 0 and coupling 0.0"
  | missingChild => "Internal dendrogram nodes require both children"
  | levelNotPositive => "Internal dendrogram nodes require a positive level"
  | sharedClasses name shared => s!"Children of '{name}' share classes: " ++ Text.join ", " shared

end Linkage
