import Linkage.Dendrogram.Text
import Linkage.Event
import Linkage.Module.Text

/-!
# Text of an event

An event is written as its severity, the activity that reports it, and a message.
-/

namespace Linkage

/-- The name of a severity. -/
def Severity.label : Severity → String
  | debug => "DEBUG"
  | info => "INFO"
  | warning => "WARNING"

/-- The word for a constraint that holds or fails. -/
def verdict (holds : Bool) : String := if holds then "OK" else "FAILED"

namespace Event

/-- The message of an event. -/
def message : Event Float → String
  | callsCounted pairs packages skipped =>
    s!"Counted {pairs} coupled class pairs across {packages} packages ({skipped} callees skipped)"
  | tableBuilt pairs calls =>
    s!"Coupling table: {pairs} class pairs, " ++ toString calls ++ " inter-class calls"
  | noClasses => "No classes to cluster"
  | clustering n => s!"Clustering {n} classes"
  | merged iteration left right coupling remaining =>
    s!"Iteration {iteration}: merged {left} and {right} (coupling " ++ fixedPlaces 3 coupling ++
      s!", {remaining} clusters left)"
  | treeComplete merges root => s!"Dendrogram complete after {merges} merges: " ++ root.title
  | cutting maxModules threshold =>
    "Identifying modules (max modules: " ++ toString maxModules ++ ", minimum coupling: " ++
      shortest threshold ++ ")"
  | limitReached maxModules node => s!"Module limit ({maxModules}) reached at {node}"
  | keptSingleton node => s!"Kept singleton {node}"
  | splitting node average threshold =>
    s!"Splitting {node} (coupling " ++ fixedPlaces 3 average ++ " below " ++
      shortest threshold ++ ")"
  | accepted made => "Accepted " ++ made.title
  | rejected node average threshold =>
    s!"Rejected {node} (coupling " ++ fixedPlaces 3 average ++ " below " ++
      shortest threshold ++ ")"
  | cutComplete modules budget threshold =>
    s!"Identified {modules} modules (budget " ++ verdict budget ++ ", minimum coupling " ++
      verdict threshold ++ ")"
  | classesLeft left total => s!"{left} of {total} classes belong to no module"
  | renderingsWritten directory => s!"Wrote coupling graph renderings to {directory}"

/-- An event in one line. -/
def line (e : Event Float) : String := e.severity.label ++ " " ++ e.source ++ ": " ++ e.message

end Event

end Linkage
