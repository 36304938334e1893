import Linkage.Event

/-!
# Cutting a dendrogram into modules

A dendrogram is cut from its root downwards. A node whose average coupling reaches a threshold
becomes a module as a whole; any other node is divided into its children. The number of modules
is limited to half the number of classes.

At the limit an inner node is still offered as a module and a leaf is dropped. A leaf below the
limit is offered like any node, or becomes a module of its own when singletons are kept; then
nothing is offered at the limit.

Averages are remembered by class set, and the memory lasts as long as the cutter.
-/

namespace Linkage

variable {α : Type} [Scalar α]

/-- The averages that are known, by class set. -/
abbrev Averages (α : Type) := List (List String × α)

/-- The **check of a cut** against its two constraints. -/
structure ConstraintReport (α : Type) where
  /-- The number of modules. -/
  moduleCount : Nat
  /-- The largest number of modules allowed. -/
  maxModules : Int
  /-- The least average coupling asked for. -/
  minCoupling : α
  /-- Whether there are at most as many modules as allowed. -/
  withinBudget : Bool
  /-- Whether every module reaches the least average coupling. -/
  meetsMinCoupling : Bool

namespace ConstraintReport

/-- Whether both constraints hold. -/
def passed (r : ConstraintReport α) : Bool := r.withinBudget && r.meetsMinCoupling

end ConstraintReport

/-- What decides a cut. -/
structure CutRule (α : Type) where
  /-- The largest number of modules allowed. -/
  maxModules : Int
  /-- The least average coupling of a module. -/
  threshold : α
  /-- The weights between classes. -/
  weights : CouplingWeights α
  /-- Whether a leaf becomes a module of its own. -/
  keepSingletons : Bool
  /-- What the names of modules start with. -/
  naming : String

/-- A cut in progress. -/
structure CutState (α : Type) where
  /-- The modules made so far. -/
  modules : List (Module α)
  /-- The averages that are known. -/
  averages : Averages α
  /-- The events so far. -/
  events : List (Event α)

namespace CutState

/-- A cut in progress with a further event. -/
def report (s : CutState α) (e : Event α) : CutState α := { s with events := s.events ++ [e] }

/-- A cut in progress with a further module. -/
def add (s : CutState α) (m : Module α) : CutState α := { s with modules := s.modules ++ [m] }

end CutState

namespace CutRule

/-- The average coupling of a node, remembered or computed, and the averages
known afterwards. -/
def averageOf (weights : CouplingWeights α) (known : Averages α) (node : Dendrogram α) :
    α × Averages α :=
  match known.lookup node.classes with
  | some x => (x, known)
  | none =>
    let x := averagePairwise node.classes weights
    (x, known ++ [(node.classes, x)])

/-- Makes a node a module if its average reaches the threshold. -/
def offer (rule : CutRule α) (node : Dendrogram α) (s : CutState α) : CutState α :=
  let (average, known) := averageOf rule.weights s.averages node
  let s := { s with averages := known }
  if rule.threshold ≤ average then
    let m := Module.ofNode rule.naming node average
    (s.add m).report (.accepted m)
  else s.report (.rejected node.name average rule.threshold)

/-- Whether as many modules have been made as are allowed. -/
def atLimit (rule : CutRule α) (s : CutState α) : Bool :=
  decide (rule.maxModules ≤ (s.modules.length : Int))

/-- Cuts a subtree. -/
def cut (rule : CutRule α) : Dendrogram α → CutState α → CutState α
  | .leaf n c, s =>
    if rule.atLimit s then s.report (.limitReached rule.maxModules n)
    else if rule.keepSingletons then
      (s.add (Module.ofNode rule.naming (.leaf n c) 0)).report (.keptSingleton n)
    else rule.offer (.leaf n c) s
  | .node n l r c k, s =>
    if rule.atLimit s then
      let s := s.report (.limitReached rule.maxModules n)
      if rule.keepSingletons then s else rule.offer (.node n l r c k) s
    else
      let (average, known) := averageOf rule.weights s.averages (.node n l r c k)
      let s := { s with averages := known }
      if rule.threshold ≤ average then rule.offer (.node n l r c k) s
      else cut rule r (cut rule l (s.report (.splitting n average rule.threshold)))

end CutRule

/-- A **module cutter**: a dendrogram, the rule of its cut, and the averages known so far. -/
structure Cutter (α : Type) where
  /-- The dendrogram, if there is one. -/
  root : Option (Dendrogram α)
  /-- What decides the cut. -/
  rule : CutRule α
  /-- The averages known so far. -/
  averages : Averages α

/-- What a cut yields. -/
structure CutOutcome (α : Type) where
  /-- The modules, in the order of the cut. -/
  modules : List (Module α)
  /-- The check of the modules. -/
  report : ConstraintReport α
  /-- The events of the cut. -/
  events : List (Event α)

namespace Cutter

/-- The cutter of a dendrogram: at most half as many modules as a total, rounded down. -/
def ofTree (root : Option (Dendrogram α)) (totalClasses : Int) (threshold : α)
    (weights : CouplingWeights α) (keepSingletons : Bool) (naming : String) : Cutter α where
  root := root
  rule := ⟨Int.fdiv totalClasses 2, threshold, weights, keepSingletons, naming⟩
  averages := []

/-- The average coupling of a node, and the cutter that remembers it. -/
def averageCoupling (c : Cutter α) (node : Dendrogram α) : α × Cutter α :=
  let (x, known) := CutRule.averageOf c.rule.weights c.averages node
  (x, { c with averages := known })

/-- The check of a list of modules. -/
def verify (c : Cutter α) (modules : List (Module α)) : ConstraintReport α where
  moduleCount := modules.length
  maxModules := c.rule.maxModules
  minCoupling := c.rule.threshold
  withinBudget := decide ((modules.length : Int) ≤ c.rule.maxModules)
  meetsMinCoupling := modules.all fun m => decide (c.rule.threshold ≤ m.averageCoupling)

/-- Another threshold for the cuts to come. -/
def setThreshold (c : Cutter α) (threshold : α) : Cutter α :=
  { c with rule := { c.rule with threshold := threshold } }

/-- The cut of the dendrogram, and the cutter that remembers its averages. -/
def identify (c : Cutter α) : CutOutcome α × Cutter α :=
  let start : CutState α := ⟨[], c.averages, [.cutting c.rule.maxModules c.rule.threshold]⟩
  let s :=
    match c.root with
    | none => start
    | some t => c.rule.cut t start
  let report := c.verify s.modules
  let done : Event α := .cutComplete s.modules.length report.withinBudget report.meetsMinCoupling
  (⟨s.modules, report, s.events ++ [done]⟩, { c with averages := s.averages })

end Cutter

/-- The number of classes of a dendrogram that may be missing. -/
def classTotal (root : Option (Dendrogram α)) : Nat :=
  match root with
  | none => 0
  | some t => t.classCount

/-- The modules of a dendrogram; the total defaults to its number of classes. -/
def identifyModules (root : Option (Dendrogram α)) (weights : CouplingWeights α) (threshold : α)
    (totalClasses : Option Int) (keepSingletons : Bool) (naming : String) : List (Module α) :=
  let total := totalClasses.getD (classTotal root)
  (Cutter.ofTree root total threshold weights keepSingletons naming).identify.1.modules

end Linkage
