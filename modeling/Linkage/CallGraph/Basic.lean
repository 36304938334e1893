import Linkage.OrderedMap
import Linkage.Text.Sorted

/-!
# Call graphs

A call graph maps each calling method to the methods it calls. Callers are distinct; a callee
may be listed several times.
-/

namespace Linkage

/-- A **call graph**: the callees of every caller, callers distinct. -/
abbrev CallGraph := OrderedMap String (List String)

namespace CallGraph

/-- The callers in increasing order. -/
def callers (g : CallGraph) : List String := Text.sorted g.keys

/-- The callees of a caller in increasing order, with repetitions. -/
def calleesOf (g : CallGraph) (caller : String) : List String := Text.sorted (g.getD caller [])

/-- The call graph with each caller's callees as a set, and callers in increasing order. -/
def normalised (g : CallGraph) : List (String × List String) :=
  g.callers.map fun caller => (caller, Text.members (g.getD caller []))

end CallGraph

end Linkage
