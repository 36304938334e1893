import Linkage.Clustering.AverageLink
import Linkage.Event
import Linkage.Number.BlockedSum

/-!
# Clustering runs

A run joins clusters until one is left. Before each merge it asks whether to go on, and stops
when told to. A run reports the merges it made whether or not it came to an end.

A clusterer holds the classes and weights of a table and can be run again; a run starts from
the single classes whatever was run before.
-/

namespace Linkage

variable {α : Type} [Scalar α]

/-- Why a run stops before its end. -/
inductive Halt where
  /-- The run was told to stop before the merge of an iteration, with clusters remaining. -/
  | cancelled (iteration remaining : Nat)
  /-- A tree could not be built. -/
  | refused (cause : DendrogramError)
  deriving DecidableEq, Repr

/-- The wording of a halt. -/
def Halt.message : Halt → String
  | cancelled iteration remaining =>
    s!"Clustering cancelled at iteration {iteration} with {remaining} clusters remaining"
  | refused cause => cause.message

/-- The **outcome of a run**: its tree or why there is none, the couplings of its merges, how
often it asked whether to go on, and what it reported. -/
structure MergeRun (α : Type) where
  /-- The tree, none without classes, or why the run stopped. -/
  result : Except Halt (Option (Dendrogram α))
  /-- The couplings of the merges, in order. -/
  couplings : List α
  /-- How often the run asked whether to go on. -/
  asked : Nat
  /-- The events of the run, in order. -/
  events : List (Event α)

namespace MergeRun

/-- A run that stops at once. -/
def halted (halt : Halt) (asked : Nat) : MergeRun α := ⟨.error halt, [], asked, []⟩

/-- A run that has come to an end after some merges. -/
def complete (merges : Nat) (clusters : List (Cluster α)) : MergeRun α :=
  match clusters with
  | [] => ⟨.ok none, [], merges, []⟩
  | c :: _ => ⟨.ok (some c.tree), [], merges, [.treeComplete merges c.tree]⟩

/-- A run with one more merge before it. -/
def after (coupling : α) (event : Event α) (r : MergeRun α) : MergeRun α :=
  { r with couplings := coupling :: r.couplings, events := event :: r.events }

end MergeRun

/-- The tree that joins a pair of active clusters, and the clusters after the merge. -/
def mergeStep? (iteration : Nat) (clusters : List (Cluster α)) (c : Candidate α) :
    Except DendrogramError (Event α × List (Cluster α)) :=
  match clusters[c.first]?, clusters[c.second]? with
  | some a, some b => do
    let union ← Dendrogram.merge? (clusterName iteration) a.tree b.tree c.coupling iteration
    pure (.merged iteration a.tree.name b.tree.name c.coupling (clusters.length - 1),
      Cluster.join clusters c.first c.second union (a.size + b.size))
  | _, _ => .error .missingChild

/-- The merges of a run: `left` are still to be made after `made`. The answers say whether to
stop and are numbered from one. -/
def mergeLoop (stop : Nat → Bool) : Nat → Nat → List (Cluster α) → MergeRun α
  | 0, made, clusters => MergeRun.complete made clusters
  | left + 1, made, clusters =>
    if stop (made + 1) then MergeRun.halted (.cancelled (made + 1) clusters.length) (made + 1)
    else
      match Cluster.closest? clusters with
      | none => MergeRun.complete made clusters
      | some c =>
        match mergeStep? (made + 1) clusters c with
        | .error cause => MergeRun.halted (.refused cause) (made + 1)
        | .ok (event, rest) => (mergeLoop stop left (made + 1) rest).after c.coupling event

/-- A run over the classes of a weight matrix. -/
def runMerges (stop : Nat → Bool) (classes : List String) (matrix : List (List α)) : MergeRun α :=
  if classes.isEmpty then ⟨.ok none, [], 0, [.noClasses]⟩
  else
    let r :=
      match Cluster.singletons? classes matrix with
      | .error cause => MergeRun.halted (.refused cause) 0
      | .ok clusters => mergeLoop stop (classes.length - 1) 0 clusters
    { r with events := .clustering classes.length :: r.events }

/-- A **clusterer**: the classes and weights of a table, the answers to the question whether to
stop, how many of them have been used, and the couplings of the last run. -/
structure Clusterer (α : Type) where
  /-- The classes in increasing order. -/
  classes : List String
  /-- The weight matrix of the classes. -/
  matrix : List (List α)
  /-- The answers to the question whether to stop, numbered from one over all runs. -/
  stop : Nat → Bool
  /-- How many answers have been used. -/
  asked : Nat
  /-- The couplings of the merges of the last run. -/
  couplings : List α

namespace Clusterer

/-- The clusterer of a coupling table. -/
def ofTables {ν : Type} (counts : OrderedMap ClassPair ν) (weights : CouplingWeights α)
    (stop : Nat → Bool) : Clusterer α :=
  let classes := classesIn counts
  ⟨classes, weightMatrix classes weights, stop, 0, []⟩

/-- One run, and the clusterer after it. -/
def run (c : Clusterer α) : MergeRun α × Clusterer α :=
  let r := runMerges (fun k => c.stop (c.asked + k)) c.classes c.matrix
  (r, { c with asked := c.asked + r.asked, couplings := r.couplings })

/-- A cell of the weight matrix by position. -/
def cellAt (c : Clusterer α) (i j : Nat) : α := (c.matrix.getD i []).getD j 0

/-- The position of a class. -/
def position? (c : Clusterer α) (name : String) : Option Nat := c.classes.idxOf? name

/-- The weight between two classes; zero when one of them is unknown. -/
def coupling (c : Clusterer α) (a b : String) : α :=
  match c.position? a, c.position? b with
  | some i, some j => c.cellAt i j
  | _, _ => 0

/-- The mean weight between the known classes of two lists; zero when one of them has none. -/
def clusterCoupling (c : Clusterer α) (xs ys : List String) : α :=
  let rows := xs.filterMap c.position?
  let columns := ys.filterMap c.position?
  if rows.isEmpty || columns.isEmpty then 0
  else blockedMean (rows.flatMap fun i => columns.map fun j => c.cellAt i j)

end Clusterer

/-- The dendrogram of a coupling table, none without classes. -/
def buildDendrogram {ν : Type} (counts : OrderedMap ClassPair ν) (weights : CouplingWeights α) :
    Except Halt (Option (Dendrogram α)) :=
  (Clusterer.ofTables counts weights fun _ => false).run.1.result

end Linkage
