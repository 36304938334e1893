import Linkage.CallGraph.Resolver

/-!
# Project packages

The packages that belong to the analysed project are read off its call graph. A package given
by a caller's class counts, the default package included; one given by a callee's class counts
unless it is the default package.
-/

namespace Linkage

/-- The **packages of a project**, as a set. -/
structure ProjectPackages where
  /-- The package names, in increasing order and each once. -/
  names : List String

namespace ProjectPackages

/-- No packages. -/
def none : ProjectPackages := ⟨[]⟩

/-- The packages of a list of names. -/
def ofList (names : List String) : ProjectPackages := ⟨Text.members names⟩

/-- The package of an identifier's class, under a resolver. -/
def packageIn (r : ClassResolver) (identifier : String) : Option String :=
  packageOf (r.resolve (some identifier))

/-- The packages that are named in a call graph, caller by caller, with repetitions. -/
def namedIn (g : CallGraph) : List String :=
  let r := ClassResolver.ofGraph g
  g.entries.flatMap fun e =>
    (packageIn r e.1).toList ++ e.2.filterMap fun callee =>
      (packageIn r callee).filter fun package => !package.isEmpty

/-- The packages with a further one. -/
def add (p : ProjectPackages) (package : String) : ProjectPackages := ofList (package :: p.names)

/-- The packages after they are cleared. -/
def reset (_ : ProjectPackages) : ProjectPackages := none

/-- Replaces the packages of an earlier analysis by those of a call graph: they are cleared,
and the packages of the graph are added one by one. -/
def redetect (held : ProjectPackages) (g : CallGraph) : ProjectPackages :=
  (namedIn g).foldl add held.reset

/-- The packages of a call graph. -/
def detect (g : CallGraph) : ProjectPackages := none.redetect g

/-- Whether the text of `inner` starts with the text of `outer` and a dot. -/
def isNested (outer inner : String) : Bool :=
  (outer.toList ++ ['.']).isPrefixOf inner.toList

/-- Whether a class belongs to the project: its package is a project package, or one of the two
is nested in the other. -/
def contains (p : ProjectPackages) (className : Option String) : Bool :=
  match packageOf className with
  | .none => false
  | .some package =>
    p.names.any fun q => package == q || isNested q package || isNested package q

end ProjectPackages

end Linkage
