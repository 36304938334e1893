import Linkage.CommandLine.Request

/-!
# Usage and help

What each grammar accepts, in short and with an explanation of every option, on lines of eighty
characters.
-/

namespace Linkage.CommandLine

/-- The usage of the program. -/
def programUsage : List String :=
  ["usage: cohesion [-h] [--version] [-v] command ..."]

/-- The help on the program, after its usage. -/
def programHelp : List String :=
  ["Identify cohesive modules from a method-level call graph",
    "",
    "positional arguments:",
    "  command",
    "    couple       Compute the inter-class coupling graph",
    "    cluster      Build the dendrogram and cut it into modules",
    "",
    "options:",
    "  -h, --help     show this help message and exit",
    "  --version      Show the installed cohesion-python version (0.1.0) (default:",
    "                 False)",
    "  -v, --verbose  Increase log verbosity (-v for info, -vv for debug) (default:",
    "                 0)"]

/-- The usage of the coupling command. -/
def coupleUsage : List String :=
  ["usage: cohesion couple [-h] --call-graph CALL_GRAPH --output-dir OUTPUT_DIR",
    "                       [--min-weight MIN_WEIGHT] [--max-nodes MAX_NODES]"]

/-- The help on the coupling command, after its usage. -/
def coupleHelp : List String :=
  ["options:",
    "  -h, --help            show this help message and exit",
    "  --call-graph CALL_GRAPH",
    "                        Path to the call graph (JSON mapping, or CSV/JSON",
    "                        lines edge list) (default: None)",
    "  --output-dir OUTPUT_DIR",
    "                        Directory receiving the DOT, JSON and CSV renderings",
    "                        (default: None)",
    "  --min-weight MIN_WEIGHT",
    "                        Edges below this coupling weight are omitted from the",
    "                        renderings (default: 0.001)",
    "  --max-nodes MAX_NODES",
    "                        Maximum number of classes drawn in the DOT graph",
    "                        (default: 50)"]

/-- The usage of the clustering command. -/
def clusterUsage : List String :=
  ["usage: cohesion cluster [-h] --call-graph CALL_GRAPH --output OUTPUT",
    "                        [--min-coupling MIN_COUPLING] [--keep-singletons]",
    "                        [--module-prefix MODULE_PREFIX]",
    "                        [--dendrogram DENDROGRAM] [--report REPORT]",
    "                        [--diagnostics-dir DIAGNOSTICS_DIR] [--no-diagnostics]"]

/-- The help on the clustering command, after its usage. -/
def clusterHelp : List String :=
  ["options:",
    "  -h, --help            show this help message and exit",
    "  --call-graph CALL_GRAPH",
    "                        Path to the call graph (JSON mapping, or CSV/JSON",
    "                        lines edge list) (default: None)",
    "  --output OUTPUT       Destination for the module table (CSV or JSON lines)",
    "                        (default: None)",
    "  --min-coupling MIN_COUPLING",
    "                        Minimum average pairwise coupling a module must reach",
    "                        (default: 0.1)",
    "  --keep-singletons     Report classes that cannot join a module as single-",
    "                        class modules (default: False)",
    "  --module-prefix MODULE_PREFIX",
    "                        Prefix used for generated module identifiers (default:",
    "                        module)",
    "  --dendrogram DENDROGRAM",
    "                        Optional path for the dendrogram node table (CSV or",
    "                        JSON lines) (default: None)",
    "  --report REPORT       Optional path for the text clustering report (default:",
    "                        None)",
    "  --diagnostics-dir DIAGNOSTICS_DIR",
    "                        Directory where diagnostics artifacts will be written",
    "                        (defaults to the output directory) (default: None)",
    "  --no-diagnostics      Disable diagnostics sidecar outputs (default: True)"]

/-- Lines as a text. -/
def lined (lines : List String) : String := Text.join "" (lines.map (· ++ "\n"))

/-- The usage of a part of the program. -/
def Scope.usage : Scope → String
  | program => lined programUsage
  | couple => lined coupleUsage
  | cluster => lined clusterUsage

/-- The help on a part of the program. -/
def Scope.helpText : Scope → String
  | program => lined (programUsage ++ "" :: programHelp)
  | couple => lined (coupleUsage ++ "" :: coupleHelp)
  | cluster => lined (clusterUsage ++ "" :: clusterHelp)

/-- What is printed when a command line is refused. -/
def Scope.refusalText (s : Scope) (r : Refusal) : String :=
  s.usage ++ s.grammar.program ++ ": error: " ++ r.message ++ "\n"

end Linkage.CommandLine
