import Linkage.Module.Basic

/-!
# Parameters of an analysis

What can be asked of an analysis, and what is meant when nothing is asked.
-/

namespace Linkage

/-- What an analysis is asked for. -/
structure Parameters (α : Type) where
  /-- The least average coupling of a module. -/
  minCoupling : α
  /-- Whether a leaf becomes a module of its own. -/
  keepSingletons : Bool
  /-- What the names of modules start with. -/
  naming : String

namespace Parameters

variable {α : Type} [Scalar α]

/-- The least average coupling unless another is asked for: one tenth. -/
def defaultMinCoupling : α := Scalar.ofDecimal 1 1

/-- The parameters unless others are asked for. -/
def standard : Parameters α := ⟨defaultMinCoupling, false, Module.defaultNaming⟩

end Parameters

end Linkage
