import Linkage.OrderedMap
import Linkage.Scalar
import Linkage.Text.Sorted

/-!
# Coupling tables

How strongly two classes are coupled is recorded per pair of classes: first as a count of
calls, then as a weight, the share of that count in all calls. A table is keyed by ordered
pairs; a weight is looked up in either direction.
-/

namespace Linkage

/-- A pair of classes. -/
abbrev ClassPair := String × String

/-- The number of calls between the classes of each pair. -/
abbrev CouplingCounts := OrderedMap ClassPair Int

/-- The weight of each pair of classes. -/
abbrev CouplingWeights (α : Type) := OrderedMap ClassPair α

/-- Two class names in increasing order. -/
def canonicalPair (a b : String) : ClassPair := if a ≤ b then (a, b) else (b, a)

/-- The classes named by a table, in increasing order and each once. -/
def classesIn {ν : Type} (table : OrderedMap ClassPair ν) : List String :=
  Text.members (table.keys.flatMap fun p => [p.1, p.2])

/-- The sum of all counts. -/
def totalCalls (counts : CouplingCounts) : Int := counts.values.foldl (· + ·) 0

variable {α : Type} [Scalar α]

/-- The share of a count in a total; `none` when one of the two is out of range. -/
def share? (total count : Int) : Option α :=
  match Scalar.ofInt? count, Scalar.ofInt? (α := α) total with
  | some c, some t => some (c / t)
  | _, _ => none

/-- The share of every count in a total. The table is empty when the total is not positive;
`none` when a number is out of range. -/
def normalise? (counts : CouplingCounts) (total : Int) : Option (CouplingWeights α) :=
  if total ≤ 0 then some OrderedMap.empty
  else
    let shares : OrderedMap ClassPair (Option α) := counts.mapValues (share? total)
    if shares.values.all Option.isSome then some (shares.mapValues (·.getD 0)) else none

/-- The weight between two classes, in either direction, and zero when there is none. -/
def couplingBetween (weights : CouplingWeights α) (a b : String) : α :=
  match weights.get? (a, b) with
  | some w => w
  | none => weights.getD (b, a) 0

end Linkage
