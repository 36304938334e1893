import Linkage.Coupling.Table

/-!
# Coupled pairs as a list

The pairs of a coupling table with their counts and weights, strongest first. Pairs of equal
weight follow the order of their names, and pairs of undefined weight come last.
-/

namespace Linkage

/-- A **coupled pair** with its count and weight. -/
structure Edge (α : Type) where
  /-- The first class of the pair. -/
  source : String
  /-- The second class of the pair. -/
  target : String
  /-- The number of calls. -/
  count : Int
  /-- The weight. -/
  weight : α

namespace Edge

variable {α : Type} [Scalar α]

/-- Whether one weight comes before another: the larger first, undefined ones last. -/
def weightBefore (x y : α) : Bool :=
  if Scalar.isUndefined x then false else Scalar.isUndefined y || decide (y < x)

/-- The order of the list: decreasing weight, then increasing names. -/
def before (e f : Edge α) : Bool :=
  weightBefore e.weight f.weight ||
    (!weightBefore f.weight e.weight &&
      Text.pairLe (e.source, e.target) (f.source, f.target))

end Edge

variable {α : Type} [Scalar α]

/-- The pairs of a table of counts with their weights, strongest first. A pair without a weight
of its own has weight zero. -/
def coupledPairs (counts : CouplingCounts) (weights : CouplingWeights α) : List (Edge α) :=
  (counts.entries.map fun e =>
    (⟨e.1.1, e.1.2, e.2, weights.getD e.1 0⟩ : Edge α)).mergeSort Edge.before

end Linkage
