import Linkage.Dendrogram.Text
import Linkage.EventText
import Linkage.Pipeline
import Linkage.Table.Analysis
import Linkage.Table.Separated

/-!
# Reports of a clustering

The modules of an analysis as a text for readers and as a table of separated fields.
-/

namespace Linkage.Report

/-- The smallest average coupling of a list of modules; zero without modules. A later module is
smaller only when it is less than the one held. -/
def minimumCoupling {α : Type} [Scalar α] : List (Module α) → α
  | [] => 0
  | m :: rest => rest.foldl (fun held k => if k.averageCoupling < held then k.averageCoupling
      else held) m.averageCoupling

/-- Modules with their ordinal numbers, from one on. -/
def numbered {α : Type} (modules : List (Module α)) : List (Module α × Nat) := modules.zipIdx 1

/-- The lines on the constraints of a cut. -/
def constraintLines (r : ConstraintReport Float) : List String :=
  [s!"- Module budget: {r.moduleCount} of " ++ toString r.maxModules ++ " " ++
      verdict r.withinBudget,
    "- Minimum coupling constraint: " ++ verdict r.meetsMinCoupling]

/-- The lines on one module. -/
def moduleLines (m : Module Float × Nat) : List String :=
  ["", s!"Module {m.2}: " ++ m.1.id, s!"  - Class count: {m.1.classCount}",
    "  - Average coupling: " ++ fixedPlaces 3 m.1.averageCoupling,
    "  - Classes: " ++ Text.join ", " m.1.classes]

/-- The report of an analysis as a text. -/
def text (a : Analysis Float) : String :=
  let left := a.unassignedClasses.length
  let lines :=
    ["=== HIERARCHICAL CLUSTERING REPORT ===", "", "GENERAL INFORMATION:",
      s!"- Total classes: {a.totalClasses}", s!"- Modules identified: {a.modules.length}",
      "- Minimum coupling required: " ++ fixedPlaces 3 a.parameters.minCoupling,
      "- Minimum module coupling: " ++ fixedPlaces 3 (minimumCoupling a.modules)] ++
    (if left = 0 then [] else [s!"- Classes without a module: {left}"]) ++
    (match a.constraints with
      | none => []
      | some r => constraintLines r) ++
    ["", "MODULES:"] ++
    ((numbered a.modules).map fun m => toString m.2 ++ ". " ++ m.1.title) ++
    ["", "=== MODULE DETAILS ==="] ++
    (numbered a.modules).flatMap moduleLines
  Text.join "\n" lines ++ "\n"

/-- The modules of an analysis as separated fields. -/
def separated (modules : List (Module Float)) : String :=
  Table.separated
    { columns := ["Module_ID", "Class_Count", "Average_Coupling", "Classes"]
      rows := modules.map fun m =>
        [.text m.id, .int m.classCount, .text (fixedPlaces 3 m.averageCoupling),
          classCell m.classes] }

end Linkage.Report
