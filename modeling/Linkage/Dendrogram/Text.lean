import Linkage.Dendrogram.Traversal
import Linkage.Number.FixedPlaces

/-!
# Text of a dendrogram

A node in one line, with or without its members, and a tree with one indented line per node.
-/

namespace Linkage.Dendrogram

/-- A node in one line. -/
def title : Dendrogram Float → String
  | leaf n _ => s!"Leaf({n})"
  | node n l r c k =>
    s!"Cluster({n}, coupling=" ++ fixedPlaces 3 c ++
      ", classes=" ++ toString (node n l r c k).classCount ++ ")"

/-- A node in one line with its level and its members. -/
def describe : Dendrogram Float → String
  | leaf n c => title (leaf n c)
  | node n l r c k =>
    let t := node n l r c k
    s!"Cluster({n}, coupling=" ++ fixedPlaces 3 c ++ s!", level={k}, classes=" ++
      toString t.classCount ++ ", members=[" ++ Text.join ", " t.classes ++ "])"

/-- The line of a node in the drawing of a tree. -/
def drawnLine : Dendrogram Float × Nat → String
  | (leaf n _, d) => Text.join "" (List.replicate d "  ") ++ "└─ " ++ n
  | (node n l r c k, d) =>
    Text.join "" (List.replicate d "  ") ++ "├─ " ++ n ++ " (coupling: " ++ fixedPlaces 3 c ++
      ", classes: " ++ toString (node n l r c k).classCount ++ ")"

/-- The drawing of a tree, one line per node in the order of the walk. -/
def draw : Option (Dendrogram Float) → String
  | none => "(empty dendrogram)\n"
  | some t => Text.join "\n" (t.outline.map drawnLine) ++ "\n"

end Linkage.Dendrogram
