import Linkage.Json.Writer
import Linkage.Names
import Linkage.Number.BlockedSum
import Linkage.Number.FixedPlaces
import Linkage.Number.Word
import Linkage.Table.Analysis
import Linkage.Table.Separated

/-!
# Renderings of a coupling graph

A coupling table seen as a weighted graph: as a drawing, as a document, as separated fields,
and as a summary. Every rendering leaves out the pairs below a least weight.
-/

namespace Linkage

/-- A **coupling graph**: counts, weights, and the total number of calls. -/
structure CouplingGraph (α : Type) where
  /-- The number of calls of each pair. -/
  counts : CouplingCounts
  /-- The weight of each pair. -/
  weights : CouplingWeights α
  /-- The total number of calls. -/
  total : Int

namespace CouplingGraph

variable {α : Type} [Scalar α]

/-- The least weight that is rendered unless another is asked for: one thousandth. -/
def defaultMinWeight : α := Scalar.ofDecimal 1 3

/-- The number of classes that are drawn unless another is asked for. -/
def defaultMaxNodes : Int := 50

/-- The number of pairs in a summary. -/
def summaryLength : Nat := 10

/-- The graph of a table; the total defaults to the sum of the counts. -/
def ofTable (counts : CouplingCounts) (weights : CouplingWeights α) (total : Option Int) :
    CouplingGraph α :=
  ⟨counts, weights, total.getD (totalCalls counts)⟩

variable (g : CouplingGraph α)

/-- The classes of the graph in increasing order. -/
def classes : List String := classesIn g.weights

/-- The number of calls of a pair. -/
def countOf (pair : ClassPair) : Int := g.counts.getD pair 0

/-- All pairs that have a weight, strongest first. -/
def pairs : List (Edge α) :=
  ((g.weights.entries.map fun e =>
    (⟨e.1.1, e.1.2, g.countOf e.1, e.2⟩ : Edge α)).mergeSort Edge.before)

/-- The pairs at or above a weight, strongest first. -/
def edges (minWeight : α) : List (Edge α) :=
  g.pairs.filter fun e => decide (minWeight ≤ e.weight)

/-- The classes that are drawn: the first ones in increasing order. -/
def visible (maxNodes : Int) : List String := g.classes.take maxNodes.toNat

/-- The pairs that are drawn, by increasing names: those between visible classes whose weight
is not below the least one. -/
def drawn (minWeight : α) (maxNodes : Int) : List (Edge α) :=
  let shown := g.visible maxNodes
  ((g.weights.entries.mergeSort fun a b => Text.pairLe a.1 b.1).filter fun e =>
    shown.contains e.1.1 && shown.contains e.1.2 && !decide (e.2 < minWeight)).map fun e =>
      ⟨e.1.1, e.1.2, g.countOf e.1, e.2⟩

end CouplingGraph

namespace CouplingGraph

/-- The line of a class in a drawing. -/
def nodeLine (name : String) : String :=
  "  \"" ++ name ++ "\" [label=\"" ++ shortName name ++ "\"];"

/-- The line of a pair in a drawing. -/
def drawnLine (e : Edge Float) : String :=
  let weight := fixedPlaces 3 e.weight
  "  \"" ++ e.source ++ "\" -> \"" ++ e.target ++ "\" [label=\"" ++ weight ++ " (" ++
    toString e.count ++ ")\", weight=" ++ weight ++ "];"

/-- The graph as a drawing of its first classes. -/
def drawing (g : CouplingGraph Float) (minWeight : Float) (maxNodes : Int) : String :=
  let edges := g.drawn minWeight maxNodes
  let lines :=
    ["digraph CouplingGraph \x7b", "  rankdir=LR;",
      "  node [shape=box, style=filled, fillcolor=lightblue];", "  edge [fontsize=10];", ""] ++
    (g.visible maxNodes).map nodeLine ++ [""] ++ edges.map drawnLine ++
    ["", s!"  // Total edges: {edges.length}",
      "  // Total inter-class calls: " ++ toString g.total, "\x7d"]
  Text.join "\n" lines ++ "\n"

/-- The graph as a value, with the time at which it is rendered. -/
def payload {α : Type} [Scalar α] (g : CouplingGraph α) (minWeight : α) (time : String) : Value α :=
  .record
    [("metadata", .record [("totalInterClassEdges", .int g.total), ("minWeight", .real minWeight),
      ("generatedAt", .text time)]),
    ("nodes", .list (g.classes.map fun name =>
      .record [("id", .text name), ("label", .text (shortName name)),
        ("package", .text ((packageOf (some name)).getD ""))])),
    ("edges", .list ((g.edges minWeight).map fun e =>
      .record [("source", .text e.source), ("target", .text e.target), ("weight", .real e.weight),
        ("count", .int e.count)]))]

/-- The graph as a document, with the time at which it is rendered. -/
def document (g : CouplingGraph Float) (minWeight : Float) (time : String) :
    Except Json.WriteError String :=
  (Json.document .graph (g.payload minWeight time)).map (· ++ "\n")

/-- Whether counts are stored as words of 64 bits without a sign: they all fit, and some fit no
word with a sign. -/
def storedUnsigned (counts : List Int) : Bool :=
  counts.all Word.isUnsigned && counts.any fun n => decide ((Word.half : Int) ≤ n)

/-- A count as a word of 64 bits with a sign. A count stored without a sign is taken modulo the
size of a word; any other count that fits no word is out of range. -/
def wordCount? (unsigned : Bool) (n : Int) : Option Int :=
  if unsigned then some (Int.bmod n Word.count)
  else if Word.isSigned n then some n
  else none

/-- The row of a pair with its share as a percentage. -/
def separatedRow (e : Edge Float) (count : Int) : List (Value Float) :=
  [.text e.source, .text e.target, .text (fixedPlaces 6 e.weight), .int count,
    .text (percentage 2 e.weight)]

/-- The graph as separated fields; `none` when a count is out of range. -/
def separated? (g : CouplingGraph Float) (minWeight : Float) : Option String :=
  let unsigned := storedUnsigned (g.pairs.map Edge.count)
  ((g.edges minWeight).mapM fun e => (wordCount? unsigned e.count).map (separatedRow e)).map
    fun rows =>
      Table.separated
        { columns := ["Source", "Target", "Weight", "Count", "Percentage"], rows := rows }

/-- An ordinal number on two places. -/
def ordinal (n : Nat) : String := if n < 10 then " " ++ toString n else toString n

/-- The line of a pair in a summary. -/
def summaryLine (e : Edge Float × Nat) : String :=
  ordinal e.2 ++ ") " ++ shortName e.1.source ++ " -> " ++ shortName e.1.target ++ ": " ++
    fixedPlaces 4 e.1.weight ++ " (" ++ toString e.1.count ++ " calls)"

/-- The pairs of a summary: the strongest ones of any defined weight, with their ordinal
numbers. -/
def strongest {α : Type} [Scalar α] (g : CouplingGraph α) : List (Edge α × Nat) :=
  ((g.pairs.filter fun e => !Scalar.isUndefined e.weight).take summaryLength).zipIdx 1

/-- The graph in a few lines. -/
def summary (g : CouplingGraph Float) (minWeight : Float) : String :=
  let above := g.edges minWeight
  let lines :=
    ["=== COUPLING GRAPH SUMMARY ===", "", "Total inter-class calls: " ++ toString g.total,
      "Minimum weight threshold: " ++ fixedPlaces 4 minWeight,
      s!"Edges at or above threshold: {above.length}",
      "Total weight at or above threshold: " ++
        fixedPlaces 4 (blockedSum (above.map Edge.weight)),
      "", s!"=== TOP {summaryLength} STRONGEST COUPLINGS ==="] ++
    g.strongest.map summaryLine
  Text.join "\n" lines ++ "\n"

end CouplingGraph

end Linkage
