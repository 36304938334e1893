import Linkage.File.Tree
import Linkage.Schema.Basic

/-!
# The schemas of call graphs, modules and dendrogram nodes

Three schemas come with the library, each under a name and a version: the document of a call
graph, a row of the table of modules, and a row of the table of dendrogram nodes.

The schemas of a version lie in a directory of the library. A version is the path to it from
the directory of all schemas, and a path that leads there in a roundabout way names the same
version.
-/

namespace Linkage.Schema

/-- The version of the schemas. -/
def version : String := "v1"

/-- A text that is not empty. -/
def label : Schema := [.kinds [.string], .nonEmpty]

/-- A number from zero to one. -/
def share : Schema := [.kinds [.number], .atLeast 0, .atMost 1]

/-- A positive integer. -/
def size : Schema := [.kinds [.integer], .atLeast 1]

/-- An integer that is not negative. -/
def rank : Schema := [.kinds [.integer], .atLeast 0]

/-- A list of texts that are not empty. -/
def labels : Schema := [.kinds [.array], .items label]

/-- The document of a call graph: callers with lists of callees, or with null. -/
def callGraph : Schema :=
  [.kinds [.object], .otherFields [] [.oneOf [labels, [.kinds [.null]]]]]

/-- The columns of the table of modules. -/
def moduleFields : List String :=
  ["module_id", "node_id", "class_count", "average_coupling", "classes"]

/-- The columns of the table of modules that are checked as texts. -/
def moduleTexts : List String := ["module_id", "node_id", "classes"]

/-- A row of the table of modules. -/
def module : Schema :=
  [.kinds [.object], .required moduleFields,
    .fields [("module_id", label), ("node_id", label), ("class_count", size),
      ("average_coupling", share), ("classes", label)],
    .noOtherFields moduleFields]

/-- The columns of the table of dendrogram nodes. -/
def nodeFields : List String :=
  ["node_id", "is_leaf", "left", "right", "coupling", "level", "class_count", "classes"]

/-- The columns of the table of dendrogram nodes that are checked as texts. -/
def nodeTexts : List String := ["node_id", "classes"]

/-- The name of a node, or null. -/
def labelOrNull : Schema := [.kinds [.string, .null]]

/-- A row of the table of dendrogram nodes. A leaf has no children and level zero; any other
node has two children and a level of at least one. -/
def node : Schema :=
  [.kinds [.object], .required nodeFields,
    .fields [("node_id", label), ("is_leaf", [.kinds [.boolean]]), ("left", labelOrNull),
      ("right", labelOrNull), ("coupling", share), ("level", rank), ("class_count", size),
      ("classes", label)],
    .noOtherFields nodeFields,
    .branch [.fields [("is_leaf", [.constant (.flag true)])]]
      [.fields [("left", [.kinds [.null]]), ("right", [.kinds [.null]]),
        ("level", [.constant (.int 0)])]]
      [.fields [("left", [.kinds [.string]]), ("right", [.kinds [.string]]),
        ("level", [.atLeast 1])]]]

/-- The schemas by name. -/
def bundled : List (String × Schema) :=
  [("call_graph", callGraph), ("module", module), ("dendrogram", node)]

/-- Why there is no schema. -/
inductive Absence where
  /-- The name is not known. -/
  | unknownName (name : String)
  /-- The version is not known. -/
  | unknownVersion (version : String)
  /-- The version is too long for a path. -/
  | longVersion (version : String)
  deriving DecidableEq, Repr

/-- The wording for an absent schema, where there is one. -/
def Absence.message? : Absence → Option String
  | unknownName name => some ("Unknown schema type '" ++ name ++ "'")
  | unknownVersion _ => none
  | longVersion _ => none

/-- The place of the library. -/
def libraryPlace : Place := ["src", "cohesion"]

/-- The directories of the library. -/
def libraryDirectories : List String :=
  ["cli", "clustering", "coupling", "data", "diagnostics", "reports", "schema"]

/-- The place of the schemas of a version. -/
def versionPlace : Place := libraryPlace ++ ["schema", version]

/-- The file tree around the library. -/
def libraryTree : FileTree :=
  let places := (libraryDirectories.map fun name => libraryPlace ++ [name]) ++ [versionPlace]
  ⟨libraryPlace, [], OrderedMap.ofList (places.map fun place => (place, .directory))⟩

/-- The path of the schemas of a version. -/
def versionPath (wanted : String) : FilePath := (FilePath.read "schema").join wanted

/-- The schema of a name and a version. -/
def find (name wanted : String) : Except Absence Schema :=
  match bundled.lookup name with
  | none => .error (.unknownName name)
  | some s =>
    match libraryTree.placeOf (versionPath wanted) with
    | .ok place => if place = versionPlace then .ok s else .error (.unknownVersion wanted)
    | .error .tooLong => .error (.longVersion wanted)
    | .error _ => .error (.unknownVersion wanted)

/-- A bundled schema is found by its name. -/
theorem find_version (name : String) (s : Schema) (h : bundled.lookup name = some s) :
    find name version = .ok s := by
  have hp : libraryTree.placeOf (versionPath version) = .ok versionPlace := by rfl
  simp [find, h, hp]

end Linkage.Schema
