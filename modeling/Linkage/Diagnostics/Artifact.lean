import Linkage.Diagnostics.Basic
import Linkage.File.Tree
import Linkage.Json.Writer

/-!
# Artifacts of diagnostics

Diagnostics are written as up to three files: a document, a page and a table of the modules.
Their names hold the version of the diagnostics, so that files of different versions never
replace one another. They go to a target: a directory, or a file that already has the right
name.
-/

namespace Linkage

/-- Why an artifact is not written. -/
inductive ArtifactError where
  /-- The target has a file name that is not the name of the artifact. -/
  | misnamed (expected given : String)
  /-- The target is a file without a suffix. -/
  | notDirectory
  /-- The file tree stands in the way. -/
  | file (e : FileError)
  /-- The file tree stands in the way of the table. -/
  | table (e : FileError)
  /-- The payload is no document. -/
  | unwritable (e : Json.WriteError)
  deriving DecidableEq, Repr

/-- The wording for a table that cannot be opened. -/
def tableMessage (e : FileError) : String :=
  match e.fault.number? with
  | some n =>
    s!"[Errno {n}] Failed to open local file '" ++ e.path.text ++ s!"'. Detail: [errno {n}] " ++
      e.fault.wording
  | none => e.message

/-- The wording for an artifact that is not written, where there is one. -/
def ArtifactError.message? : ArtifactError → Option String
  | misnamed expected given =>
    some ("Diagnostics artifacts must be named '" ++ expected ++ "', got '" ++ given ++ "'.")
  | notDirectory => some "Diagnostics target must be a directory or the versioned filename."
  | file e => some e.message
  | table e => some (tableMessage e)
  | unwritable e => e.message?

namespace Artifact

/-- What the names of all artifacts start with. -/
def basename : String := "cohesion-diagnostics-" ++ Diagnostics.version

/-- The suffix of the document. -/
def documentSuffix : String := ".json"

/-- The suffix of the page. -/
def pageSuffix : String := ".html"

/-- The suffix of the table. -/
def tableSuffix : String := ".parquet"

/-- A file error as a reason against an artifact. -/
def onFile {β : Type} : Except FileError β → Except ArtifactError β
  | .ok x => .ok x
  | .error e => .error (.file e)

/-- The path of an artifact, in a tree and for a target: the target itself when it has a
suffix, which is then the name of the artifact, and otherwise a file below it. -/
def locate (t : FileTree) (target : FilePath) (suffix : String) :
    Except ArtifactError FilePath := do
  let path ← onFile (t.expand target)
  let expected := basename ++ suffix
  if !path.suffix.isEmpty then
    if path.name = expected then return path else throw (.misnamed expected path.name)
  else if ← onFile (t.isFile path) then throw .notDirectory
  else return path.join expected

/-- The path of an artifact whose directory has been made. -/
def prepare (target : FilePath) (suffix : String) : FileAction ArtifactError FilePath := do
  let path ← FileAction.demand fun t => locate t target suffix
  FileAction.mapFailure .file (FileAction.ensureDirectories path.parent)
  return path

/-- Writes an artifact. -/
def put (target : FilePath) (suffix : String) (e : FileEntry)
    (rename : FileError → ArtifactError) : FileAction ArtifactError FilePath := do
  let path ← prepare target suffix
  FileAction.mapFailure rename (FileAction.write path e)
  return path

/-- The text of the document: a payload and a line break. -/
def documentText (payload : Value Float) : Except Json.WriteError String :=
  (Json.document .diagnostics payload).map (· ++ "\n")

/-- Writes the document. Its directory is made before the payload is looked at. -/
def putDocument (payload : Value Float) (target : FilePath) :
    FileAction ArtifactError FilePath := do
  let path ← prepare target documentSuffix
  match documentText payload with
  | .error e => throw (.unwritable e)
  | .ok s =>
    FileAction.mapFailure .file (FileAction.write path (.text s))
    return path

/-- Writes the page. -/
def putPage (page : String) (target : FilePath) : FileAction ArtifactError FilePath :=
  put target pageSuffix (.text page) .file

/-- Writes the table. -/
def putTable (target : FilePath) : FileAction ArtifactError FilePath :=
  put target tableSuffix .columns .table

/-- Writes the document, the page and, when there is one, the table. Each checks the target for
itself, so the document may be written and the page not. -/
def putAll (payload : Value Float) (page : String) (hasTable : Bool) (target : FilePath) :
    FileAction ArtifactError Unit := do
  let _ ← putDocument payload target
  let _ ← putPage page target
  if hasTable then
    let _ ← putTable target

/-- Writes all artifacts of an analysis, with a value of its parameters. -/
def putAnalysis (a : Analysis Float) (parameters : Value Float) (target : FilePath) :
    FileAction ArtifactError Unit :=
  putAll (Diagnostics.payloadWith a parameters) (Diagnostics.ofAnalysis a).page true target

end Artifact

end Linkage
