import Linkage.BisectionSort
import Linkage.CallGraph.Basic
import Linkage.CallGraph.Document
import Linkage.CallGraph.EdgeTable
import Linkage.CallGraph.Packages
import Linkage.CallGraph.Resolver
import Linkage.CallGraph.Source
import Linkage.Clustering.AverageLink
import Linkage.Clustering.Clusterer
import Linkage.Clustering.WeightMatrix
import Linkage.CommandLine.Grammar
import Linkage.CommandLine.Help
import Linkage.CommandLine.Program
import Linkage.CommandLine.Reach
import Linkage.CommandLine.Request
import Linkage.CommandLine.Session
import Linkage.Coupling.CallCount
import Linkage.Coupling.Edge
import Linkage.Coupling.Table
import Linkage.Dendrogram.Basic
import Linkage.Dendrogram.Text
import Linkage.Dendrogram.Traversal
import Linkage.Diagnostics.Artifact
import Linkage.Diagnostics.Basic
import Linkage.Diagnostics.Series
import Linkage.Event
import Linkage.EventText
import Linkage.File.Path
import Linkage.File.Tree
import Linkage.Fingerprint.Basic
import Linkage.Fingerprint.Digest
import Linkage.Json.Escape
import Linkage.Json.Lines
import Linkage.Json.Reader
import Linkage.Json.Units
import Linkage.Json.Writer
import Linkage.Main
import Linkage.Module.Basic
import Linkage.Module.Cut
import Linkage.Module.Parameters
import Linkage.Module.Text
import Linkage.Names
import Linkage.Number.Binary64
import Linkage.Number.BlockedSum
import Linkage.Number.Extended
import Linkage.Number.FixedPlaces
import Linkage.Number.PaddedNumeral
import Linkage.Number.Reading
import Linkage.Number.Shortest
import Linkage.Number.Word
import Linkage.OrderedMap
import Linkage.Pipeline
import Linkage.Proofs.Analysis
import Linkage.Proofs.BisectionSort
import Linkage.Proofs.CallGraph.CheckedDocuments
import Linkage.Proofs.CallGraph.Documents
import Linkage.Proofs.CallGraph.FixedClasses
import Linkage.Proofs.CallGraph.ProjectBoundary
import Linkage.Proofs.CallGraph.Resolution
import Linkage.Proofs.CallGraph.SameCalls
import Linkage.Proofs.CallGraph.Segments
import Linkage.Proofs.CallGraph.SilentFailures
import Linkage.Proofs.CallGraph.TwoForms
import Linkage.Proofs.Clustering.ActiveList
import Linkage.Proofs.Clustering.Cancellation
import Linkage.Proofs.Clustering.ClassSets
import Linkage.Proofs.Clustering.Components
import Linkage.Proofs.Clustering.CrossWeight
import Linkage.Proofs.Clustering.Forest
import Linkage.Proofs.Clustering.Growth
import Linkage.Proofs.Clustering.History
import Linkage.Proofs.Clustering.Monotone
import Linkage.Proofs.Clustering.Recomputation
import Linkage.Proofs.Clustering.RunningSums
import Linkage.Proofs.Clustering.Scaling
import Linkage.Proofs.Clustering.Shares
import Linkage.Proofs.Clustering.Unrelated
import Linkage.Proofs.Clustering.WeightMatrix
import Linkage.Proofs.Coupling.AddedCalls
import Linkage.Proofs.Coupling.Consistent
import Linkage.Proofs.Coupling.Counting
import Linkage.Proofs.Coupling.EachPairOnce
import Linkage.Proofs.Coupling.Normalised
import Linkage.Proofs.Coupling.SameWeights
import Linkage.Proofs.Coupling.Shares
import Linkage.Proofs.Coupling.Sizes
import Linkage.Proofs.Dendrogram.Construction
import Linkage.Proofs.Dendrogram.Positions
import Linkage.Proofs.Dendrogram.TableRows
import Linkage.Proofs.Dendrogram.Topmost
import Linkage.Proofs.Dendrogram.WellFormed
import Linkage.Proofs.Diagnostics.Series
import Linkage.Proofs.Diagnostics.StrictDocument
import Linkage.Proofs.Diagnostics.Targets
import Linkage.Proofs.Division
import Linkage.Proofs.File.Actions
import Linkage.Proofs.Fingerprint.Modules
import Linkage.Proofs.Fingerprint.Rearrangement
import Linkage.Proofs.Json.Delimited
import Linkage.Proofs.Json.Grammar
import Linkage.Proofs.Json.Nesting
import Linkage.Proofs.Json.Numerals
import Linkage.Proofs.Json.ReadLines
import Linkage.Proofs.Json.ReadObjects
import Linkage.Proofs.Json.Written
import Linkage.Proofs.Lookup
import Linkage.Proofs.Module.Average
import Linkage.Proofs.Module.Budget
import Linkage.Proofs.Module.Crowding
import Linkage.Proofs.Module.Cuts
import Linkage.Proofs.Module.Existence
import Linkage.Proofs.Module.FloatingPoint
import Linkage.Proofs.Module.Identifiers
import Linkage.Proofs.Module.Memory
import Linkage.Proofs.Module.PairTotal
import Linkage.Proofs.Module.Partition
import Linkage.Proofs.Module.Refinement
import Linkage.Proofs.Module.Scaling
import Linkage.Proofs.Module.Share
import Linkage.Proofs.Module.Similarity
import Linkage.Proofs.Module.Singletons
import Linkage.Proofs.Module.Topmost
import Linkage.Proofs.Number.Binary64
import Linkage.Proofs.Number.BlockedSum
import Linkage.Proofs.Number.CountBound
import Linkage.Proofs.Number.ExactScalar
import Linkage.Proofs.Number.Magnitude
import Linkage.Proofs.Number.Nearest
import Linkage.Proofs.Number.OrderedScalar
import Linkage.Proofs.Number.Rounding
import Linkage.Proofs.OrderedPairs
import Linkage.Proofs.Outcome
import Linkage.Proofs.Report.Renderings
import Linkage.Proofs.Schema.Conformance
import Linkage.Proofs.Schema.Rules
import Linkage.Proofs.Table.Column
import Linkage.Proofs.Table.Records
import Linkage.Proofs.Text.Members
import Linkage.Report.Clustering
import Linkage.Report.Graph
import Linkage.Scalar
import Linkage.Schema.Basic
import Linkage.Schema.Bundled
import Linkage.Schema.Check
import Linkage.Schema.Text
import Linkage.Table.Analysis
import Linkage.Table.Basic
import Linkage.Table.Column
import Linkage.Table.FieldReader
import Linkage.Table.Lines
import Linkage.Table.Records
import Linkage.Table.Separated
import Linkage.Text.Blank
import Linkage.Text.CaseTable
import Linkage.Text.DecimalDigit
import Linkage.Text.Lowercase
import Linkage.Text.Printable
import Linkage.Text.Quoted
import Linkage.Text.Sorted
import Linkage.Time.CalendarDate
import Linkage.Time.Clock
import Linkage.Time.Timestamp
import Linkage.Value.Basic
import Linkage.Value.Order
import Linkage.Value.Text
