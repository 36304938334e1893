import Linkage.Module.Basic
import Linkage.Number.FixedPlaces

/-!
# Text of a module

A module in one line with its size, its average coupling and its members.
-/

namespace Linkage.Module

/-- A module in one line. -/
def title (m : Module Float) : String :=
  m.id ++ " (classes: " ++ toString m.classCount ++ ", average coupling: " ++
    fixedPlaces 3 m.averageCoupling ++ ", members: [" ++ Text.join ", " m.classes ++ "])"

end Linkage.Module
