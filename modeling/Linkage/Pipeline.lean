import Linkage.Clustering.Clusterer
import Linkage.Coupling.CallCount
import Linkage.Coupling.Edge
import Linkage.Dendrogram.Traversal
import Linkage.Module.Cut
import Linkage.Module.Parameters

/-!
# From a call graph to modules

An analysis counts the calls between classes, turns the counts into weights, clusters the
classes and cuts the dendrogram into modules.
-/

namespace Linkage

variable {α : Type} [Scalar α]

/-- The **coupling of a call graph**: counts, their total, weights, and the
project packages. -/
structure CouplingSummary (α : Type) where
  /-- The number of calls of each pair. -/
  counts : CouplingCounts
  /-- The sum of the counts. -/
  total : Int
  /-- The weight of each pair. -/
  weights : CouplingWeights α
  /-- The packages of the project. -/
  packages : ProjectPackages

namespace CouplingSummary

/-- The coupling of a call graph; `none` when a count is out of range. -/
def ofGraph? (g : CallGraph) : Option (CouplingSummary α) :=
  let counts := countCalls g
  let total := totalCalls counts
  (normalise? counts total).map fun weights => ⟨counts, total, weights, ProjectPackages.detect g⟩

/-- The classes of the table. -/
def classes (s : CouplingSummary α) : List String := classesIn s.counts

/-- The pairs of the table, strongest first. -/
def pairs (s : CouplingSummary α) : List (Edge α) := coupledPairs s.counts s.weights

end CouplingSummary

/-- The event that reports the counting of a call graph. -/
def countEvent (g : CallGraph) : Event α :=
  .callsCounted (countCalls g).size (ProjectPackages.detect g).names.length g.skippedCalls

/-- The **result of an analysis**. -/
structure Analysis (α : Type) where
  /-- The dendrogram, none without classes. -/
  dendrogram : Option (Dendrogram α)
  /-- The modules in the order of the cut. -/
  modules : List (Module α)
  /-- The number of calls of each pair. -/
  counts : CouplingCounts
  /-- The weight of each pair. -/
  weights : CouplingWeights α
  /-- The check of the cut, if it is known. -/
  constraints : Option (ConstraintReport α)
  /-- What was asked for. -/
  parameters : Parameters α

namespace Analysis

/-- The number of classes. -/
def totalClasses (a : Analysis α) : Nat := classTotal a.dendrogram

/-- The classes that belong to a module, in increasing order and each once. -/
def assignedClasses (a : Analysis α) : List String :=
  Text.members (a.modules.flatMap Module.classes)

/-- The classes that belong to no module, in increasing order. -/
def unassignedClasses (a : Analysis α) : List String :=
  match a.dendrogram with
  | none => []
  | some t =>
    let assigned := a.assignedClasses
    t.classes.filter fun k => !assigned.contains k

/-- The couplings of the merges, in the order of the merges. -/
def mergeCouplings (a : Analysis α) : List α :=
  match a.dendrogram with
  | none => []
  | some t => t.mergeCouplings

end Analysis

/-- Why an analysis has no result. -/
inductive AnalysisError where
  /-- A number is out of range. -/
  | outOfRange
  /-- The clustering stopped before its end. -/
  | halted (halt : Halt)

/-- An analysis with what it reported, also when it has no result. -/
structure Reported (α : Type) where
  /-- The result, or why there is none. -/
  result : Except AnalysisError (Analysis α)
  /-- The events, in order. -/
  events : List (Event α)

/-- Clusters the classes of a table and cuts the dendrogram. The answers say whether
to stop. -/
def analyseTables (counts : CouplingCounts) (weights : CouplingWeights α)
    (parameters : Parameters α) (stop : Nat → Bool) : Reported α :=
  let run := (Clusterer.ofTables counts weights stop).run.1
  match run.result with
  | .error halt => ⟨.error (.halted halt), run.events⟩
  | .ok root =>
    let total := classTotal root
    let outcome := (Cutter.ofTree root total parameters.minCoupling weights
      parameters.keepSingletons parameters.naming).identify.1
    let analysis : Analysis α :=
      ⟨root, outcome.modules, counts, weights, some outcome.report, parameters⟩
    let left := analysis.unassignedClasses.length
    let notice : List (Event α) := if left = 0 then [] else [.classesLeft left total]
    ⟨.ok analysis, run.events ++ outcome.events ++ notice⟩

/-- Clusters the classes of a call graph without cutting the dendrogram: the dendrogram, or why
there is none, and the events in order. The answers say whether to stop. -/
def clusterGraph (g : CallGraph) (stop : Nat → Bool) :
    Except AnalysisError (Option (Dendrogram α)) × List (Event α) :=
  match (CouplingSummary.ofGraph? g : Option (CouplingSummary α)) with
  | none => (.error .outOfRange, [countEvent g])
  | some s =>
    let run := (Clusterer.ofTables s.counts s.weights stop).run.1
    let events := countEvent g :: .tableBuilt s.counts.size s.total :: run.events
    match run.result with
    | .error halt => (.error (.halted halt), events)
    | .ok root => (.ok root, events)

/-- Analyses a call graph. The answers say whether to stop. -/
def analyse (g : CallGraph) (parameters : Parameters α) (stop : Nat → Bool) : Reported α :=
  match (CouplingSummary.ofGraph? g : Option (CouplingSummary α)) with
  | none => ⟨.error .outOfRange, [countEvent g]⟩
  | some summary =>
    let r := analyseTables summary.counts summary.weights parameters stop
    { r with
      events := countEvent g :: .tableBuilt summary.counts.size summary.total :: r.events }

end Linkage
