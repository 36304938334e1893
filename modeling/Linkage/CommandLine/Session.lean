import Linkage.CallGraph.Source
import Linkage.CommandLine.Request
import Linkage.Diagnostics.Artifact
import Linkage.EventText
import Linkage.Report.Clustering
import Linkage.Report.Graph
import Linkage.Schema.Check
import Linkage.Table.Analysis
import Linkage.Table.Lines
import Linkage.Time.Timestamp

/-!
# Sessions

A command reads a call graph from a file tree, analyses it, and writes files into the tree.
What it prints and reports on the way is gathered together with the tree, so that all of it is
there also when the command fails half way.

Some failures are part of the dealings with a user and have a wording; all others are faults of
the surroundings. Besides its file tree, a command meets a time, which it writes down, and a
stack, which bounds how deep a document may be nested that it reads.
-/

namespace Linkage.CommandLine

/-- The **surroundings** of a command apart from its file tree. -/
structure Surroundings where
  /-- The time. -/
  time : Timestamp
  /-- The number of levels of nesting that the stack leaves for all that walks through a
  document. -/
  levels : Nat

/-- Why a command fails. -/
inductive CommandFailure where
  /-- The least weight is negative. -/
  | negativeWeight
  /-- The number of classes to be drawn is not positive. -/
  | noNodes
  /-- The file of the call graph is not there. -/
  | noCallGraph (location : String)
  /-- The call graph cannot be read. -/
  | callGraph (e : SourceFault)
  /-- Records do not follow their schema. -/
  | nonconforming (what : String) (b : Schema.Breach)
  /-- A file cannot be written. -/
  | unwritten (e : FileError)
  /-- The diagnostics cannot be written. -/
  | artifacts (target : FilePath) (e : ArtifactError)
  /-- A directory cannot be made. -/
  | directory (e : FileError)
  /-- The analysis has no result. -/
  | analysis (e : AnalysisError)
  /-- A number is out of range. -/
  | outOfRange
  /-- A document cannot be written. -/
  | document (e : Json.WriteError)
  /-- An option has been left with nothing where its argument is needed. -/
  | nothingGiven

namespace CommandFailure

/-- The wording for a call graph that cannot be read, unless the surroundings are at fault. -/
def sourceMessage? : SourceFault → Option String
  | .file ⟨.zeroCharacter, _⟩ => some FileFault.zeroCharacter.wording
  | .file _ => none
  | e => e.message?

/-- The wording for diagnostics that cannot be written to a target, unless the surroundings are
at fault. -/
def artifactMessage? (target : FilePath) : ArtifactError → Option String
  | .file ⟨.noUser, _⟩ => none
  | e => e.message?.map fun m => "Failed to write diagnostics to '" ++ target.text ++ "': " ++ m

/-- The wording for a failure that is part of the dealings with a user. -/
def message? : CommandFailure → Option String
  | negativeWeight => some "--min-weight must be non-negative"
  | noNodes => some "--max-nodes must be at least 1"
  | noCallGraph location => some ("Call graph file '" ++ location ++ "' was not found")
  | callGraph e => sourceMessage? e
  | nonconforming what b => some (what ++ " failed schema validation: " ++ b.message)
  | unwritten e =>
    some ("Failed to write output to '" ++ e.path.text ++ "': " ++ e.message)
  | artifacts target e => artifactMessage? target e
  | directory _ => none
  | analysis _ => none
  | outOfRange => none
  | document _ => none
  | nothingGiven => none

end CommandFailure

/-- What a command has done so far. -/
structure Session where
  /-- The file tree. -/
  tree : FileTree
  /-- What has been printed. -/
  printed : String
  /-- What has been reported, in order. -/
  events : List (Event Float)

/-- An action of a command. What was done before a failure stays done. -/
abbrev SessionAction (α : Type) := ExceptT CommandFailure (StateM Session) α

namespace Session

/-- Acts on the file tree. -/
def onTree {ε α : Type} (rename : ε → CommandFailure) (a : FileAction ε α) : SessionAction α :=
  ExceptT.mk (do
    let s ← get
    let (r, tree) := a.run s.tree
    set { s with tree }
    match r with
    | .ok x => pure (.ok x)
    | .error e => pure (.error (rename e)))

/-- Reports events. -/
def report (es : List (Event Float)) : SessionAction Unit :=
  modify fun s => { s with events := s.events ++ es }

/-- Prints a text. -/
def print (text : String) : SessionAction Unit :=
  modify fun s => { s with printed := s.printed ++ text }

/-- An answer, or a failure. -/
def demand {ε α : Type} (rename : ε → CommandFailure) : Except ε α → SessionAction α
  | .ok x => pure x
  | .error e => throw (rename e)

/-- The argument of an option that is needed. -/
def needed {α : Type} : Option α → SessionAction α
  | some x => pure x
  | none => throw .nothingGiven

/-- The file tree. -/
def currentTree : SessionAction FileTree := do return (← get).tree

/-- The path from the root that a path stands for. -/
def locate (location : FilePath) : SessionAction FilePath := do
  demand .directory ((← currentTree).locate location)

/-- Makes the directory of a file and writes it. -/
def writeFile (location : FilePath) (e : FileEntry) : SessionAction Unit := do
  let path ← locate location
  onTree .directory (FileAction.ensureDirectories path.parent)
  onTree .unwritten (FileAction.write path e)

/-- The suffixes of files that hold lines of objects. -/
def lineSuffixes : List String := [".json", ".jsonl", ".ndjson"]

/-- A table in the form that the suffix of its file asks for. -/
def tableText (suffix : String) (t : Table Float) : String :=
  if lineSuffixes.contains (Text.lowercase suffix) then t.lines else t.separated

/-- Writes a table. -/
def writeTable (location : FilePath) (t : Table Float) : SessionAction Unit := do
  let path ← locate location
  writeFile location (.text (tableText path.suffix t))

end Session

/-- The object in a text that may be a document, as far as it is checked before a call graph is
read from it. -/
def checkedDocument (levels : Nat) (s : String) : Except SourceFault (Option (Value Float)) :=
  let cs := Text.trimBlanks s.toList
  if cs.isEmpty then .ok none
  else
    match Json.readChars levels cs with
    | .ok (.map es) => .ok (some (CallGraph.unwrapped es))
    | .ok _ => .ok none
    | .error .malformed => .ok none
    | .error (.tooLong digits) => .error (.tooLong digits)
    | .error .tooDeep => .error .tooDeep

/-- A failure to read a call graph: a file that is not there is told apart. -/
def sourceFailure (location : String) : SourceFault → CommandFailure
  | .file ⟨.missing, _⟩ => .noCallGraph location
  | e => .callGraph e

/-- Checks the document in a file of that suffix against the schema of call graphs. -/
def checkCallGraph (levels : Nat) (t : FileTree) (location : String) :
    Except CommandFailure Unit := do
  let path := FilePath.read location
  if Text.lowercase path.suffix = ".json" then
    match t.readText path with
    | .error e => throw (sourceFailure location (.file e))
    | .ok s =>
      match checkedDocument levels s with
      | .error e => throw (sourceFailure location e)
      | .ok none => pure ()
      | .ok (some v) =>
        match Schema.breach? "call_graph" Schema.callGraph [v] with
        | some b => throw (.nonconforming "Call graph" b)
        | none => pure ()

/-- The call graph of a file, once its document has been checked. -/
def loadCallGraph (levels : Nat) (t : FileTree) (location : String) :
    Except CommandFailure CallGraph := do
  checkCallGraph levels t location
  match CallGraph.load levels t (FilePath.read location) with
  | .ok g => return g
  | .error e => throw (sourceFailure location e)

/-- The file of the drawing. -/
def drawingName : String := "coupling_graph.dot"

/-- The file of the document. -/
def documentName : String := "coupling_graph.json"

/-- The file of the separated fields. -/
def fieldsName : String := "coupling_report.csv"

/-- Renders the coupling graph of a call graph. The document among the renderings tells the
time. -/
def couple (around : Surroundings) (r : CoupleRequest) : SessionAction Unit := do
  let minWeight ← Session.needed r.minWeight
  if minWeight < 0 then throw .negativeWeight
  let maxNodes ← Session.needed r.maxNodes
  if maxNodes < 1 then throw .noNodes
  let callGraph ← Session.needed r.callGraph
  let g ← Session.demand id (loadCallGraph around.levels (← Session.currentTree) callGraph)
  Session.report [countEvent g]
  match (CouplingSummary.ofGraph? g : Option (CouplingSummary Float)) with
  | none => throw .outOfRange
  | some summary => do
    let graph : CouplingGraph Float := ⟨summary.counts, summary.weights, summary.total⟩
    let directory ← Session.locate (FilePath.read (← Session.needed r.outputDirectory))
    Session.onTree .directory (FileAction.ensureDirectories directory)
    Session.writeFile (directory.child drawingName) (.text (graph.drawing minWeight maxNodes))
    let document ← Session.demand .document (graph.document minWeight around.time.text)
    Session.writeFile (directory.child documentName) (.text document)
    match graph.separated? minWeight with
    | none => throw .outOfRange
    | some fields => do
      Session.writeFile (directory.child fieldsName) (.text fields)
      Session.report [.renderingsWritten directory.text]
      Session.print (graph.summary minWeight)

/-- Checks the rows of a table against a schema. -/
def checkOutput (name what : String) (textColumns : List String) (t : Table Float) :
    SessionAction Unit := do
  match Schema.checkTable name Schema.version textColumns t with
  | .ok _ => pure ()
  | .error (.breach b) => throw (.nonconforming what b)
  | .error (.absent _) => pure ()

/-- The report on an analysis followed by its dendrogram. -/
def fullReport (a : Analysis Float) : String :=
  Report.text a ++ "\n=== DENDROGRAM ===\n" ++ Dendrogram.draw a.dendrogram

/-- What is printed when an analysis is done. -/
def closingLine (a : Analysis Float) : String :=
  s!"Identified {a.modules.length} modules covering {a.assignedClasses.length} of " ++
    s!"{a.totalClasses} classes\n"

/-- Writes the tables, the report and the diagnostics of an analysis. -/
def writeAnalysis (r : ClusterRequest) (a : Analysis Float) : SessionAction Unit := do
  let output := FilePath.read (← Session.needed r.output)
  let modules := moduleTable a.modules
  checkOutput "module" "Module output" Schema.moduleTexts modules
  Session.writeTable output modules
  match r.dendrogram with
  | none => pure ()
  | some location => do
    let nodes := dendrogramTable a.dendrogram
    checkOutput "dendrogram" "Dendrogram output" Schema.nodeTexts nodes
    Session.writeTable (FilePath.read location) nodes
  match r.report with
  | none => pure ()
  | some location => Session.writeFile (FilePath.read location) (.text (fullReport a))
  if r.hasDiagnostics then
    let path ← Session.locate output
    let target := (r.diagnosticsTarget.map FilePath.read).getD path.parent
    Session.onTree (.artifacts target)
      (Artifact.putAnalysis a (r.parameterValue a.parameters) target)
  Session.print (closingLine a)

/-- Clusters a call graph and writes what comes of it. Where no least coupling is given, the
dendrogram is built but not cut. -/
def cluster (around : Surroundings) (r : ClusterRequest) : SessionAction Unit := do
  let callGraph ← Session.needed r.callGraph
  let g ← Session.demand id (loadCallGraph around.levels (← Session.currentTree) callGraph)
  match r.minCoupling with
  | none => do
    let (result, events) :=
      (clusterGraph g (fun _ => false) : Except AnalysisError (Option (Dendrogram Float)) × _)
    Session.report events
    let _ ← Session.demand .analysis result
    throw .nothingGiven
  | some minCoupling => do
    let reported : Reported Float := analyse g (r.parameters minCoupling) fun _ => false
    Session.report reported.events
    let a ← Session.demand .analysis reported.result
    writeAnalysis r a

/-- Does what is asked of a command. -/
def perform (around : Surroundings) : Request → SessionAction Unit
  | .couple r => couple around r
  | .cluster r => cluster around r

/-- How a run ends. -/
inductive Exit where
  /-- With a number; zero stands for success. -/
  | code (n : Nat)
  /-- With a text for the user. -/
  | text (s : String)
  /-- With a failure that is no part of the dealings with a user. -/
  | failure (f : CommandFailure)

/-- A run: how it ends, what it prints, what it complains about, and the tree it leaves. -/
structure Run where
  /-- How the run ends. -/
  exit : Exit
  /-- What the run prints. -/
  printed : String
  /-- What the run complains about. -/
  complaints : String
  /-- The file tree after the run. -/
  tree : FileTree

/-- The least severity of the events that are shown. -/
def leastSeverity (verbosity : Nat) : Severity :=
  match verbosity with
  | 0 => .warning
  | 1 => .info
  | _ => .debug

/-- The events that are shown, one per line. -/
def shownEvents (verbosity : Nat) (es : List (Event Float)) : String :=
  let least := (leastSeverity verbosity).rank
  Text.join "" ((es.filter fun e => decide (least ≤ e.severity.rank)).map fun e => e.line ++ "\n")

/-- The answer to the question for the version. -/
def versionText : String := "cohesion-python 0.1.0\n"

/-- The run of a command. -/
def runRequest (around : Surroundings) (verbosity : Nat) (r : Request) (t : FileTree) : Run :=
  let (result, s) := (perform around r).run ⟨t, "", []⟩
  let shown := shownEvents verbosity s.events
  match result with
  | .ok _ => ⟨.code 0, s.printed, shown, s.tree⟩
  | .error f =>
    match f.message? with
    | none => ⟨.failure f, s.printed, shown, s.tree⟩
    | some m => ⟨.text ("Error: " ++ m), s.printed, shown ++ "Error: " ++ m ++ "\n", s.tree⟩

end Linkage.CommandLine
