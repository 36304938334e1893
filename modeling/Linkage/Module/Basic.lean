import Linkage.Coupling.Table
import Linkage.Dendrogram.Basic

/-!
# Modules

A module is a group of classes cut out of a dendrogram, with the average coupling between its
classes.
-/

namespace Linkage

/-- A **module**: a named group of classes in increasing order, the dendrogram node it was cut
from, and the average coupling between its classes. -/
structure Module (α : Type) where
  /-- The name of the module. -/
  id : String
  /-- The name of the dendrogram node. -/
  nodeId : String
  /-- The classes in increasing order. -/
  classes : List String
  /-- The average coupling between two classes. -/
  averageCoupling : α

namespace Module

variable {α : Type}

/-- The name prefix of modules unless another is asked for. -/
def defaultNaming : String := "module"

/-- The module of the given classes, unless its name is empty. -/
def make? (id nodeId : String) (classes : List String) (averageCoupling : α) :
    Option (Module α) :=
  if id.isEmpty then none else some ⟨id, nodeId, Text.sorted classes, averageCoupling⟩

/-- The wording for a module without a name. -/
def emptyNameMessage : String := "Module requires a non-empty identifier"

/-- The module of a dendrogram node. -/
def ofNode (naming : String) (node : Dendrogram α) (averageCoupling : α) : Module α :=
  ⟨naming ++ "-" ++ node.name, node.name, node.classes, averageCoupling⟩

/-- The number of classes of a module. -/
def classCount (m : Module α) : Nat := m.classes.length

end Module

variable {α : Type} [Scalar α]

/-- The pairs of a list, each element with those after it. -/
def orderedPairs {β : Type} : List β → List (β × β)
  | [] => []
  | a :: rest => rest.map (fun b => (a, b)) ++ orderedPairs rest

/-- The average weight over all pairs of a set of classes; zero for fewer than two classes and
for an empty table. -/
def averagePairwise (classes : List String) (weights : CouplingWeights α) : α :=
  let ms := Text.members classes
  if ms.length < 2 || weights.isEmpty then 0
  else
    let pairs := orderedPairs ms
    (pairs.map fun p => couplingBetween weights p.1 p.2).foldl (· + ·) 0 / (pairs.length : α)

end Linkage
