import Linkage.CommandLine.Grammar
import Linkage.Module.Parameters
import Linkage.Report.Graph
import Linkage.Value.Text

/-!
# Requests

What can be asked on a command line. The program has options of its own and two commands: one
renders the coupling graph of a call graph, the other clusters it and cuts the dendrogram. An
option that is given several times counts as given last.

An option may be left with nothing where its argument belongs. A request keeps that apart,
because it is found out only when the argument is needed.
-/

namespace Linkage.CommandLine

/-- A part of the program with a grammar of its own. -/
inductive Scope where
  /-- The program. -/
  | program
  /-- The command that renders a coupling graph. -/
  | couple
  /-- The command that clusters a call graph. -/
  | cluster
  deriving DecidableEq, Repr

/-- The option that asks for help. -/
def helpOption : OptionRule := ⟨["-h", "--help"], .help, false⟩

/-- An option that leaves a mark. -/
def marked (spelling : String) : OptionRule := ⟨[spelling], .mark, false⟩

/-- An option that may be given an argument of some kind. -/
def stored (spelling : String) (kind : ArgumentKind) : OptionRule :=
  ⟨[spelling], .store kind, false⟩

/-- An option that has to be given a text. -/
def demanded (spelling : String) : OptionRule := ⟨[spelling], .store .text, true⟩

/-- The names of the commands. -/
def commandNames : List (String × Scope) := [("couple", .couple), ("cluster", .cluster)]

/-- The grammar of a part of the program. -/
def Scope.grammar : Scope → Grammar
  | program =>
    { program := "cohesion"
      options := [helpOption, marked "--version", ⟨["-v", "--verbose"], .mark, false⟩]
      commands := commandNames.map Prod.fst }
  | couple =>
    { program := "cohesion couple"
      options := [helpOption, demanded "--call-graph", demanded "--output-dir",
        stored "--min-weight" .number, stored "--max-nodes" .integer]
      commands := [] }
  | cluster =>
    { program := "cohesion cluster"
      options := [helpOption, demanded "--call-graph", demanded "--output",
        stored "--min-coupling" .number, marked "--keep-singletons",
        stored "--module-prefix" .text, stored "--dendrogram" .text, stored "--report" .text,
        stored "--diagnostics-dir" .text, marked "--no-diagnostics"]
      commands := [] }

/-- What is asked of the command that renders a coupling graph. -/
structure CoupleRequest where
  /-- The file of the call graph. -/
  callGraph : Option String
  /-- The directory for the renderings. -/
  outputDirectory : Option String
  /-- The least weight that is rendered. -/
  minWeight : Option Float
  /-- The number of classes that are drawn. -/
  maxNodes : Option Int

/-- What is asked of the command that clusters a call graph. -/
structure ClusterRequest where
  /-- The file of the call graph. -/
  callGraph : Option String
  /-- The file for the table of modules. -/
  output : Option String
  /-- The least average coupling of a module. -/
  minCoupling : Option Float
  /-- Whether a leaf becomes a module of its own. -/
  keepSingletons : Bool
  /-- What the names of modules start with. -/
  naming : Option String
  /-- The file for the table of dendrogram nodes. -/
  dendrogram : Option String
  /-- The file for the report. -/
  report : Option String
  /-- The target of the diagnostics. -/
  diagnosticsTarget : Option String
  /-- Whether diagnostics are written. -/
  hasDiagnostics : Bool

namespace ClusterRequest

/-- The parameters of an analysis with a least average coupling. Names that start with nothing
start with an empty list. -/
def parameters (r : ClusterRequest) (minCoupling : Float) : Parameters Float :=
  ⟨minCoupling, r.keepSingletons, r.naming.getD (Value.plain (.list []))⟩

/-- The parameters of an analysis as they are kept with its diagnostics. -/
def parameterValue (r : ClusterRequest) (p : Parameters Float) : Value Float :=
  .record [("min_coupling", .real p.minCoupling), ("keep_singletons", .flag p.keepSingletons),
    ("module_prefix", (r.naming.map .text).getD (.list []))]

end ClusterRequest

/-- What is asked of a command. -/
inductive Request where
  /-- To render a coupling graph. -/
  | couple (r : CoupleRequest)
  /-- To cluster a call graph. -/
  | cluster (r : ClusterRequest)

/-- What is asked of the program. -/
structure Invocation where
  /-- Whether the version is asked for. -/
  showsVersion : Bool
  /-- How often more messages are asked for. -/
  verbosity : Nat
  /-- What is asked of a command, if one is named. -/
  request : Option Request

namespace Arguments

variable (a : Arguments)

/-- What an option was given last. -/
def last? (key : String) : Option Given := a.settings.reverse.lookup key

/-- How often an option was given. -/
def count (key : String) : Nat := (a.settings.filter fun s => s.1 == key).length

/-- Whether an option was given. -/
def has (key : String) : Bool := decide (0 < a.count key)

/-- The text that an option was given. -/
def text? (key : String) : Option String :=
  match a.last? key with
  | some (.text s) => some s
  | _ => none

/-- The text that an option was given, unless it is empty. -/
def filled? (key : String) : Option String := (a.text? key).filter fun s => !s.isEmpty

/-- The text that an option was given, or a default where it was not given. -/
def textOr? (key default : String) : Option String :=
  if a.has key then a.text? key else some default

/-- The number that an option was given, or a default where it was not given. -/
def numberOr? (key : String) (default : Float) : Option Float :=
  match a.last? key with
  | none => some default
  | some (.number x) => some x
  | some _ => none

/-- The integer that an option was given, or a default where it was not given. -/
def integerOr? (key : String) (default : Int) : Option Int :=
  match a.last? key with
  | none => some default
  | some (.integer n) => some n
  | some _ => none

/-- What is asked of the command that renders a coupling graph. -/
def coupleRequest : CoupleRequest where
  callGraph := a.text? "--call-graph"
  outputDirectory := a.text? "--output-dir"
  minWeight := a.numberOr? "--min-weight" CouplingGraph.defaultMinWeight
  maxNodes := a.integerOr? "--max-nodes" CouplingGraph.defaultMaxNodes

/-- What is asked of the command that clusters a call graph. -/
def clusterRequest : ClusterRequest where
  callGraph := a.text? "--call-graph"
  output := a.text? "--output"
  minCoupling := a.numberOr? "--min-coupling" Parameters.defaultMinCoupling
  keepSingletons := a.has "--keep-singletons"
  naming := a.textOr? "--module-prefix" Module.defaultNaming
  dendrogram := a.filled? "--dendrogram"
  report := a.filled? "--report"
  diagnosticsTarget := a.filled? "--diagnostics-dir"
  hasDiagnostics := !a.has "--no-diagnostics"

end Arguments

/-- What is asked of the command with a grammar. -/
def requestOf : Scope → Arguments → Option Request
  | .program, _ => none
  | .couple, a => some (.couple a.coupleRequest)
  | .cluster, a => some (.cluster a.clusterRequest)

/-- A stop in a part of the program. -/
abbrev ScopedStop := Scope × Stop

/-- Reads words by the grammar of a part of the program. -/
def readIn (s : Scope) (words : List String) : Except ScopedStop Arguments :=
  match s.grammar.read words with
  | .ok a => .ok a
  | .error stop => .error (s, stop)

/-- Refuses words that mean nothing. -/
def refuseStrays : List String → Except ScopedStop Unit
  | [] => .ok ()
  | strays => .error (.program, .refused (.unrecognized strays))

/-- Reads a command line. Words that mean nothing are refused only when all else is
in order. -/
def readCommandLine (words : List String) : Except ScopedStop Invocation := do
  let a ← readIn .program words
  let invocation (request : Option Request) : Invocation :=
    ⟨a.has "--version", a.count "--verbose", request⟩
  match a.command with
  | none =>
    refuseStrays a.strays
    return invocation none
  | some (name, rest) =>
    match commandNames.lookup name with
    | none => throw (.program, .refused (.unknownCommand name (commandNames.map Prod.fst)))
    | some scope => do
      let b ← readIn scope rest
      refuseStrays (a.strays ++ b.strays)
      return invocation (requestOf scope b)

end Linkage.CommandLine
