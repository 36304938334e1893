import Linkage.CallGraph.Basic
import Linkage.Names
import Linkage.Text.Lowercase

/-!
# Resolving identifiers to classes

The class of an identifier is what stands before its last dot. A class written without a
package is looked up among the classes that declare callers, by its short name and ignoring
letter case; of several such classes the one of the least caller is taken.
-/

namespace Linkage

/-- A **class resolver**: the full names of classes that declare callers, by short name in
lowercase. -/
structure ClassResolver where
  /-- The full name for each short name in lowercase. -/
  qualified : OrderedMap String String

namespace ClassResolver

/-- The resolver of a call graph: callers are taken in increasing order and the first class of
a short name stays. -/
def ofGraph (g : CallGraph) : ClassResolver where
  qualified := g.callers.foldl (fun m caller =>
    match ownerOf (some caller) with
    | none => m
    | some owner => m.insertNew (Text.lowercase (shortName owner)) owner) OrderedMap.empty

/-- The class of an identifier: its class part, qualified when it has no package. -/
def resolve (r : ClassResolver) (identifier : Option String) : Option String :=
  (ownerOf identifier).map fun owner =>
    if isDotted owner then owner
    else r.qualified.getD (Text.lowercase owner) owner

end ClassResolver

/-- The class of an identifier, resolved against a call graph when one is given. -/
def classOf (identifier : Option String) (graph : Option CallGraph) : Option String :=
  match graph with
  | none => ownerOf identifier
  | some g => (ClassResolver.ofGraph g).resolve identifier

end Linkage
