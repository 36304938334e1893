import Linkage.CallGraph.Packages
import Linkage.Coupling.Table

/-!
# Counting calls between classes

Two classes are coupled by a called method when a method of one of them calls it and it belongs
to the other. Each pair of classes counts a called method once, however many methods call it.
Calls within a class, and calls that leave the project, do not count.
-/

namespace Linkage

/-- A **counted relation**: a pair of classes and the identifier called across it. -/
abbrev Relation := ClassPair × String

/-- A call made from a project class: the class, the identifier called and, when that lies in
the project too, its class. -/
structure ProjectCall where
  /-- The class of the calling method. -/
  caller : String
  /-- The identifier called. -/
  callee : String
  /-- The project class of the identifier called. -/
  target : Option String

namespace CallGraph

variable (g : CallGraph)

/-- The project class of an identifier, under a resolver and a set of packages. -/
def projectClass (r : ClassResolver) (p : ProjectPackages) (identifier : String) : Option String :=
  (r.resolve (some identifier)).filter fun k => p.contains (some k)

/-- The calls made from the classes of a set of packages, by increasing caller and callee. -/
def callsWithin (p : ProjectPackages) : List ProjectCall :=
  let r := ClassResolver.ofGraph g
  g.callers.flatMap fun caller =>
    match projectClass r p caller with
    | none => []
    | some k => (g.calleesOf caller).map fun callee => ⟨k, callee, projectClass r p callee⟩

/-- The relation that a call counts for, unless it leaves the project or stays in its class. -/
def relationOf (c : ProjectCall) : Option Relation :=
  match c.target with
  | none => none
  | some k => if k = c.caller then none else some (canonicalPair c.caller k, c.callee)

/-- The relations counted within a set of packages in the order in which they are met, each
once. -/
def relationsWithin (p : ProjectPackages) : List Relation :=
  ((g.callsWithin p).filterMap relationOf).eraseDups

/-- The number of calls that leave the project. -/
def skippedCalls : Nat :=
  ((g.callsWithin (ProjectPackages.detect g)).filter fun c => c.target.isNone).length

end CallGraph

/-- The number of relations of each pair, pairs in the order of their first relation. -/
def tally (relations : List Relation) : CouplingCounts :=
  relations.foldl (fun t r => t.insert r.1 (t.getD r.1 0 + 1)) OrderedMap.empty

/-- The number of calls between each pair of project classes, and the packages of the project,
which replace those of an earlier analysis. -/
def countCallsIn (held : ProjectPackages) (g : CallGraph) : CouplingCounts × ProjectPackages :=
  let p := held.redetect g
  (tally (g.relationsWithin p), p)

/-- The number of calls between each pair of project classes. -/
def countCalls (g : CallGraph) : CouplingCounts := (countCallsIn .none g).1

end Linkage
