import Linkage.CallGraph.Basic
import Linkage.Value.Text

/-!
# Call graph documents

A call graph can be given as a map from callers to lists of callees. A caller without a list
has no callees, and a callee that is null is left out. Callers and callees that are no texts
are taken by their plain text; of callers with the same text the last one counts.
-/

namespace Linkage

/-- Why a value is no call graph. -/
inductive DocumentFault where
  /-- The value is no map. -/
  | noMap
  /-- The callees of a caller are no list. -/
  | noCallees (caller : String)
  deriving DecidableEq, Repr

/-- The wording for a value that is no call graph. -/
def DocumentFault.message : DocumentFault → String
  | noMap => "Call graph must be an object mapping callers to callees"
  | noCallees caller =>
    "Callees of '" ++ caller ++ "' must be provided as an array of identifiers"

namespace CallGraph

/-- The items of a value that may list callees. -/
def calleeItems? : Value Float → Option (List (Value Float))
  | .null => some []
  | .list xs => some xs
  | .tuple xs => some xs
  | .set _ xs => some xs
  | _ => none

/-- The callee that an item names. -/
def calleeOf? : Value Float → Option String
  | .null => none
  | v => some v.plain

/-- The call graph of the entries of a map, added to one that is given. -/
def addEntries (g : CallGraph) : List (Value Float × Value Float) → Except DocumentFault CallGraph
  | [] => .ok g
  | (caller, callees) :: rest =>
    match calleeItems? callees with
    | none => .error (.noCallees caller.inSentence)
    | some items => addEntries (g.insert caller.plain (items.filterMap calleeOf?)) rest

/-- The call graph that a value stands for. -/
def ofValue : Value Float → Except DocumentFault CallGraph
  | .map es => addEntries OrderedMap.empty es
  | _ => .error .noMap

/-- The name under which a document may keep its call graph. -/
def documentKey : String := "call_graph"

/-- The part of a document that is its call graph: a field of that name, or all of it. -/
def unwrapped (es : List (Value Float × Value Float)) : Value Float :=
  (Value.field? documentKey es).getD (.map es)

end CallGraph

end Linkage
