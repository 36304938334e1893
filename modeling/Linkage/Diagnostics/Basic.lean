import Linkage.Diagnostics.Series
import Linkage.Fingerprint.Basic
import Linkage.Pipeline

/-!
# Diagnostics of an analysis

The figures by which two analyses can be compared: sizes, coverage, the distribution of
modules, the couplings of the merges, the constraints and the parameters. They are written as a
document together with a fingerprint of the modules, and as a page with the headline figures.
-/

namespace Linkage

/-- The **diagnostics** of an analysis. -/
structure Diagnostics (α : Type) where
  /-- The number of classes. -/
  classCount : Nat
  /-- The number of modules. -/
  moduleCount : Nat
  /-- The largest number of modules allowed. -/
  maxModules : Nat
  /-- The share of classes that belong to a module. -/
  coverage : α
  /-- The classes that belong to no module. -/
  unassigned : List String
  /-- The sizes of the modules. -/
  moduleSizes : SeriesSummary α
  /-- The average couplings of the modules. -/
  moduleCouplings : SeriesSummary α
  /-- The couplings of the merges. -/
  mergeCouplings : List α
  /-- The number of merges with a larger coupling than the merge before. -/
  nonMonotonicMerges : Nat
  /-- The check of the cut, if it is known. -/
  constraints : Option (ConstraintReport α)
  /-- What was asked for. -/
  parameters : Parameters α

namespace Diagnostics

variable {α : Type} [Scalar α]

/-- The share of a number in a total; zero of nothing. -/
def coverageOf (assigned total : Nat) : α :=
  if total = 0 then 0 else (assigned : α) / (total : α)

/-- The summary of a series at the standard probabilities. -/
def summaryOf (values : List α) : SeriesSummary α :=
  match Series.summarise values Series.standardProbabilities with
  | .ok s => s
  | .error _ => ⟨0, none, none, []⟩

/-- The diagnostics of an analysis. -/
def ofAnalysis (a : Analysis α) : Diagnostics α where
  classCount := a.totalClasses
  moduleCount := a.modules.length
  maxModules := a.totalClasses / 2
  coverage := coverageOf a.assignedClasses.length a.totalClasses
  unassigned := a.unassignedClasses
  moduleSizes := summaryOf (a.modules.map fun m => (m.classCount : α))
  moduleCouplings := summaryOf (a.modules.map Module.averageCoupling)
  mergeCouplings := a.mergeCouplings
  nonMonotonicMerges := Series.rises a.mergeCouplings
  constraints := a.constraints
  parameters := a.parameters

/-- The check of a cut as a value. -/
def constraintValue (r : ConstraintReport α) : Value α :=
  .record [("module_count", .int r.moduleCount), ("max_modules", .int r.maxModules),
    ("min_coupling", .real r.minCoupling), ("within_module_budget", .flag r.withinBudget),
    ("meets_min_coupling", .flag r.meetsMinCoupling), ("passed", .flag r.passed)]

/-- A scalar that may be unknown; an unknown one is undefined. -/
def knownOr (x : Option Float) : Value Float := .real (x.getD (0 / 0))

/-- The summary of a series as a value. -/
def seriesValue (s : SeriesSummary Float) : Value Float :=
  .record [("count", .int s.count), ("mean", knownOr s.mean), ("variance", knownOr s.variance),
    ("quantiles", .map (s.quantiles.map fun q => (.real q.1, knownOr q.2)))]

/-- The version of the diagnostics. -/
def version : String := "v0.1"

/-- Diagnostics, with the value of the parameters and the fingerprint of the modules, as a
value. -/
def toValue (d : Diagnostics Float) (parameters : Value Float) (fingerprint : String) :
    Value Float :=
  .record [("class_count", .int d.classCount), ("module_count", .int d.moduleCount),
    ("max_modules", .int d.maxModules), ("coverage", .real d.coverage),
    ("unassigned_classes", .texts d.unassigned), ("module_sizes", seriesValue d.moduleSizes),
    ("module_couplings", seriesValue d.moduleCouplings),
    ("merge_couplings", .list (d.mergeCouplings.map .real)),
    ("non_monotonic_merges", .int d.nonMonotonicMerges),
    ("constraints", (d.constraints.map constraintValue).getD .null),
    ("parameters", parameters), ("fingerprint", .text fingerprint)]

/-- The diagnostics of an analysis, with a value of its parameters, as the payload of a
document. -/
def payloadWith (a : Analysis Float) (parameters : Value Float) : Value Float :=
  .record [("metadata", .record [("diagnostics_version", .text version)]),
    ("clustering", (ofAnalysis a).toValue parameters (Fingerprint.ofModules a.modules))]

/-- The diagnostics of an analysis as the payload of a document. -/
def payload (a : Analysis Float) : Value Float := payloadWith a a.parameters.toValue

/-- A character of a page. -/
def pageChar (c : Char) : List Char :=
  if c = '&' then "&amp;".toList
  else if c = '<' then "&lt;".toList
  else if c = '>' then "&gt;".toList
  else if c = '"' then "&quot;".toList
  else if c = '\'' then "&#x27;".toList
  else [c]

/-- A text on a page. -/
def pageText (s : String) : String := String.ofList (s.toList.flatMap pageChar)

/-- The headline figures and the classes left out, as a page. -/
def page (d : Diagnostics Float) : String :=
  let passed := (d.constraints.map ConstraintReport.passed).getD false
  let items :=
    if d.unassigned.isEmpty then ["<li>None</li>"]
    else d.unassigned.map fun k => "<li>" ++ pageText k ++ "</li>"
  Text.join "" (["<html><body>", "<h1>Clustering Diagnostics</h1>",
    s!"<p>Classes: {d.classCount}</p>",
    s!"<p>Modules: {d.moduleCount} (budget {d.maxModules})</p>",
    "<p>Coverage: " ++ percentage 1 d.coverage ++ "</p>",
    "<p>Constraints passed: " ++ (if passed then "yes" else "no") ++ "</p>",
    "<p>Diagnostics version: " ++ version ++ "</p>",
    "<h2>Classes without a module</h2>", "<ul>"] ++ items ++ ["</ul>", "</body></html>"])

end Diagnostics

end Linkage
