import Linkage.Names
import Linkage.Text.Sorted

/-!
# File paths

A path is a list of names, read from where it starts: the working directory, or a root. Empty
names and single dots say nothing and are left out; a pair of dots is kept, because only a file
tree can tell what it means.

## Main results

* `FilePath.names_join`: joining appends names.
* `FilePath.parent_child`: what lies below a directory has that directory as its parent.
-/

namespace Linkage

/-- A **file path**: the text of the root it starts from, if it does not start from the working
directory, and its names. -/
structure FilePath where
  /-- The text of the root. -/
  root : Option String
  /-- The names, from the first to the last. -/
  names : List String
  deriving DecidableEq, Repr

namespace FilePath

/-- Whether a name says something about where a path leads. -/
def isTelling (name : List Char) : Bool := !name.isEmpty && name != ['.']

/-- The names in a text that are separated by slashes. -/
def namesIn (cs : List Char) : List String :=
  ((cs.splitOnP (· == '/')).filter isTelling).map String.ofList

/-- The root at the beginning of a text: one slash, or two slashes when there are just two. -/
def rootIn (cs : List Char) : Option String :=
  match cs.takeWhile (· == '/') with
  | [] => none
  | [_, _] => some "//"
  | _ => some "/"

/-- The path that a text stands for. -/
def read (s : String) : FilePath := ⟨rootIn s.toList, namesIn s.toList⟩

/-- The text of a path. The working directory is written as a dot. -/
def text (p : FilePath) : String :=
  match p.root with
  | some root => root ++ Text.join "/" p.names
  | none => if p.names.isEmpty then "." else Text.join "/" p.names

/-- The last name of a path, empty when there is none. -/
def name (p : FilePath) : String := p.names.getLast?.getD ""

/-- The suffix of a name: its last dot and what follows, unless that dot comes first
or last. -/
def suffixOf (name : String) : String :=
  match cutLast name.toList with
  | some (_ :: _, c :: after) => String.ofList ('.' :: c :: after)
  | _ => ""

/-- The suffix of the last name of a path. -/
def suffix (p : FilePath) : String := suffixOf p.name

/-- Whether a name of a path holds the zero character. -/
def hasZero (p : FilePath) : Bool := p.names.any fun name => name.toList.contains '\x00'

/-- The path without its last name. -/
def parent (p : FilePath) : FilePath := { p with names := p.names.dropLast }

/-- A file or directory below a directory. -/
def child (p : FilePath) (name : String) : FilePath := { p with names := p.names ++ [name] }

/-- The path that a text stands for, read from a directory. -/
def join (p : FilePath) (s : String) : FilePath :=
  let q := read s
  match q.root with
  | some _ => q
  | none => { p with names := p.names ++ q.names }

/-- A relative path that is joined to a path adds its names. -/
theorem names_join (p : FilePath) (s : String) (h : (read s).root = none) :
    (p.join s).names = p.names ++ (read s).names := by
  simp [join, h]

/-- What a child lies in is the path that it was made from. -/
theorem parent_child (p : FilePath) (name : String) : (p.child name).parent = p := by
  simp [parent, child]

/-- A child has its name. -/
theorem name_child (p : FilePath) (s : String) : (p.child s).name = s := by
  simp [name, child]

end FilePath

end Linkage
