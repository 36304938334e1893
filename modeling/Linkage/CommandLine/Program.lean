import Linkage.CommandLine.Help
import Linkage.CommandLine.Session

/-!
# The program

A run of the program reads its command line and does what is asked: it gives help, tells its
version, refuses what it does not understand, or performs a command on a file tree.
-/

namespace Linkage.CommandLine

/-- A run that prints a text and leaves the tree as it is. -/
def printing (text : String) (t : FileTree) : Run := ⟨.code 0, text, "", t⟩

/-- The run of the program on the words of a command line, in its surroundings and on a file
tree. -/
def run (around : Surroundings) (words : List String) (t : FileTree) : Run :=
  match readCommandLine words with
  | .error (scope, .help) => printing scope.helpText t
  | .error (scope, .refused r) => ⟨.code 2, "", scope.refusalText r, t⟩
  | .ok i =>
    if i.showsVersion then printing versionText t
    else
      match i.request with
      | none => printing Scope.program.helpText t
      | some r => runRequest around i.verbosity r t

end Linkage.CommandLine
