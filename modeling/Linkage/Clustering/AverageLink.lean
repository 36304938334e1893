import Linkage.Clustering.WeightMatrix
import Linkage.Dendrogram.Basic
import Linkage.Number.PaddedNumeral

/-!
# Average linkage

The clustering keeps a list of active clusters, oldest first. Each step joins the two clusters
whose classes are, on average, most strongly coupled, and appends the union to the list.

A cluster carries the summed weights between its classes and those of every active cluster, so
that the average over a pair of clusters is one division and the sums of a union are additions.
Of several pairs with the largest average the first is joined, pairs being ordered by their
first and then their second position. An undefined average is larger than any other.
-/

namespace Linkage

variable {α : Type} [Scalar α]

/-- An **active cluster**: its tree, the number of its classes, and the summed weights between
its classes and those of every active cluster, in the order of the list of clusters. -/
structure Cluster (α : Type) where
  /-- The tree of the cluster. -/
  tree : Dendrogram α
  /-- The number of its classes. -/
  size : Nat
  /-- The summed weights to every active cluster, itself included. -/
  links : List α

/-- A **pair of active clusters** by position, with the average weight between them. -/
structure Candidate (α : Type) where
  /-- The position of the first cluster. -/
  first : Nat
  /-- The position of the second cluster. -/
  second : Nat
  /-- The average weight between their classes. -/
  coupling : α

namespace Cluster

/-- The average weight between two clusters whose summed weight is given. -/
def averageLink (c d : Cluster α) (summed : α) : α := summed / ((c.size * d.size : Nat) : α)

/-- The pairs of a cluster at a position with the clusters after it. -/
def candidatesAt (clusters : List (Cluster α)) (c : Cluster α) (i : Nat) : List (Candidate α) :=
  ((clusters.zipIdx.zip c.links).drop (i + 1)).map fun e =>
    ⟨i, e.1.2, averageLink c e.1.1 e.2⟩

/-- All pairs of clusters, by first and then by second position. -/
def candidates (clusters : List (Cluster α)) : List (Candidate α) :=
  clusters.zipIdx.flatMap fun e => candidatesAt clusters e.1 e.2

end Cluster

/-- The better of two pairs: the later one only when it is not at most the earlier, and never
after an undefined average. -/
def Candidate.better (held offered : Candidate α) : Candidate α :=
  if Scalar.isUndefined held.coupling then held
  else if offered.coupling ≤ held.coupling then held
  else offered

namespace Cluster

/-- The pair of clusters to join. -/
def closest? (clusters : List (Cluster α)) : Option (Candidate α) :=
  match candidates clusters with
  | [] => none
  | c :: rest => some (rest.foldl Candidate.better c)

/-- A list without the elements at two positions, the first before the second. -/
def dropTwo {β : Type} (i j : Nat) (xs : List β) : List β := (xs.eraseIdx j).eraseIdx i

/-- The summed weight between a cluster and the union of two others. -/
def linkToUnion (i j : Nat) (c : Cluster α) : α := c.links.getD i 0 + c.links.getD j 0

/-- A cluster that stays active when two others are joined. -/
def keep (i j : Nat) (c : Cluster α) : Cluster α :=
  { c with links := dropTwo i j c.links ++ [linkToUnion i j c] }

/-- The active clusters after the clusters at two positions are joined into a tree. -/
def join (clusters : List (Cluster α)) (i j : Nat) (union : Dendrogram α) (size : Nat) :
    List (Cluster α) :=
  let kept := dropTwo i j clusters
  kept.map (keep i j) ++ [⟨union, size, kept.map (linkToUnion i j) ++ [0]⟩]

/-- The clusters of single classes, with the rows of the weight matrix. -/
def singletons? (classes : List String) (matrix : List (List α)) :
    Except DendrogramError (List (Cluster α)) :=
  (classes.zip matrix).mapM fun e => do
    let t ← Dendrogram.ofClass? e.1
    pure ⟨t, 1, e.2⟩

end Cluster

/-- The name of the cluster made by the merge of a level. -/
def clusterName (level : Int) : String := "cluster-" ++ paddedNumeral 3 level

end Linkage
