import Linkage.Dendrogram.Basic
import Linkage.Module.Basic

/-!
# Events

What an analysis reports while it runs. An event has a severity and the name of the activity
that reports it, so that a reader can choose how much to see.
-/

namespace Linkage

/-- How much an event matters. -/
inductive Severity where
  | debug | info | warning
  deriving DecidableEq, Repr

namespace Severity

/-- The rank of a severity, larger for what matters more. -/
def rank : Severity → Nat
  | debug => 10
  | info => 20
  | warning => 30

end Severity

/-- What an analysis **reports**. -/
inductive Event (α : Type) where
  /-- The calls of a call graph have been counted. -/
  | callsCounted (pairs packages skipped : Nat)
  /-- The coupling table is complete. -/
  | tableBuilt (pairs : Nat) (calls : Int)
  /-- There is nothing to cluster. -/
  | noClasses
  /-- The clustering of some classes begins. -/
  | clustering (classes : Nat)
  /-- Two clusters have been joined. -/
  | merged (iteration : Nat) (left right : String) (coupling : α) (remaining : Nat)
  /-- The dendrogram is complete. -/
  | treeComplete (merges : Nat) (root : Dendrogram α)
  /-- The cut into modules begins. -/
  | cutting (maxModules : Int) (threshold : α)
  /-- The number of modules has reached its limit at a node. -/
  | limitReached (maxModules : Int) (node : String)
  /-- A class has become a module of its own. -/
  | keptSingleton (node : String)
  /-- A node falls short of the threshold and is divided. -/
  | splitting (node : String) (average threshold : α)
  /-- A node has become a module. -/
  | accepted (made : Module α)
  /-- A node has been turned down. -/
  | rejected (node : String) (average threshold : α)
  /-- The cut is complete. -/
  | cutComplete (modules : Nat) (withinBudget meetsThreshold : Bool)
  /-- Some classes belong to no module. -/
  | classesLeft (left total : Nat)
  /-- The renderings of a coupling graph have been written into a directory. -/
  | renderingsWritten (directory : String)

namespace Event

variable {α : Type}

/-- The severity of an event. A cut that breaks a constraint is a warning. -/
def severity : Event α → Severity
  | callsCounted .. => .debug
  | tableBuilt .. => .info
  | noClasses => .info
  | clustering _ => .info
  | merged .. => .debug
  | treeComplete .. => .info
  | cutting .. => .info
  | limitReached .. => .debug
  | keptSingleton _ => .debug
  | splitting .. => .debug
  | accepted _ => .debug
  | rejected .. => .debug
  | cutComplete _ budget threshold => if budget && threshold then .info else .warning
  | classesLeft .. => .info
  | renderingsWritten _ => .info

/-- The activity that reports an event. -/
def source : Event α → String
  | callsCounted .. => "cohesion.coupling"
  | tableBuilt .. => "cohesion.service"
  | noClasses => "cohesion.clustering"
  | clustering _ => "cohesion.clustering"
  | merged .. => "cohesion.clustering"
  | treeComplete .. => "cohesion.clustering"
  | cutting .. => "cohesion.modules"
  | limitReached .. => "cohesion.modules"
  | keptSingleton _ => "cohesion.modules"
  | splitting .. => "cohesion.modules"
  | accepted _ => "cohesion.modules"
  | rejected .. => "cohesion.modules"
  | cutComplete .. => "cohesion.modules"
  | classesLeft .. => "cohesion.service"
  | renderingsWritten _ => "cohesion.cli"

end Event

end Linkage
