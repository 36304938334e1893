import Linkage.Coupling.Edge
import Linkage.Dendrogram.Traversal
import Linkage.Table.Basic

/-!
# Tables of an analysis

The coupled pairs, the nodes of a dendrogram and the modules of an analysis as tables. The
classes of a row are written in one cell, with semicolons between them.
-/

namespace Linkage

variable {α : Type}

/-- Classes in one cell. -/
def classCell (classes : List String) : Value α := .text (Text.join ";" classes)

/-- The table of coupled pairs. -/
def edgeTable (edges : List (Edge α)) : Table α where
  columns := ["source", "target", "count", "weight"]
  rows := edges.map fun e => [.text e.source, .text e.target, .int e.count, .real e.weight]

/-- The row of a module. -/
def moduleRow (m : Module α) : List (Value α) :=
  [.text m.id, .text m.nodeId, .int m.classCount, .real m.averageCoupling, classCell m.classes]

/-- The table of modules. -/
def moduleTable (modules : List (Module α)) : Table α where
  columns := ["module_id", "node_id", "class_count", "average_coupling", "classes"]
  rows := modules.map moduleRow

/-- The fields of a dendrogram node. -/
def Dendrogram.toValue (t : Dendrogram α) : Value α :=
  .record [("node_id", .text t.name), ("is_leaf", .flag t.isLeaf),
    ("left", .ofText? (t.left?.map Dendrogram.name)),
    ("right", .ofText? (t.right?.map Dendrogram.name)),
    ("coupling", .real t.coupling), ("level", .int t.level), ("class_count", .int t.classCount),
    ("classes", .texts t.classes)]

/-- The row of a dendrogram node. -/
def nodeRow (t : Dendrogram α) : List (Value α) :=
  [.text t.name, .flag t.isLeaf, .ofText? (t.left?.map Dendrogram.name),
    .ofText? (t.right?.map Dendrogram.name), .real t.coupling, .int t.level, .int t.classCount,
    classCell t.classes]

/-- The table of the nodes of a dendrogram, in the order of the walk. -/
def dendrogramTable (root : Option (Dendrogram α)) : Table α where
  columns :=
    ["node_id", "is_leaf", "left", "right", "coupling", "level", "class_count", "classes"]
  rows :=
    match root with
    | none => []
    | some t => t.nodes.map nodeRow

end Linkage
