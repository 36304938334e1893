import Linkage.CommandLine.Request
import Linkage.File.Tree

/-!
# What a request reaches

A request names the file that it reads and the files and directories that it writes. Together
with the directories on the way to them, these are all the places of a file tree that matter to
a run.

## Main results

* `FileTree.mem_way_of_follow`: the place that names lead to lies on the way.
-/

namespace Linkage

namespace FileTree

/-- The places that names lead through, from a place on. -/
def way : Place → List String → List Place
  | place, [] => [place]
  | place, name :: rest => place :: way (step place name) rest

/-- Names that can be followed lead to a place on their way. -/
theorem mem_way_of_follow (t : FileTree) (names : List String) (start stop : Place)
    (h : t.follow start names = .ok stop) : stop ∈ way start names := by
  induction names generalizing start with
  | nil => simp_all [follow, way]
  | cons name rest ih =>
    simp only [follow] at h
    split at h
    · simp at h
    · split at h
      · simp at h
      · exact List.mem_cons_of_mem _ (ih _ h)
    · simp at h

end FileTree

namespace CommandLine

/-- The path of the file that a request reads. -/
def Request.source? : Request → Option FilePath
  | couple r => r.callGraph.map FilePath.read
  | cluster r => r.callGraph.map FilePath.read

/-- The paths that a request may write to. -/
def Request.targets : Request → List FilePath
  | couple r => r.outputDirectory.toList.map FilePath.read
  | cluster r =>
    (r.output.toList ++ r.dendrogram.toList ++ r.report.toList ++
      r.diagnosticsTarget.toList).map FilePath.read

/-- The paths that a request reaches in a file tree. -/
def Request.paths (r : Request) (t : FileTree) : List FilePath :=
  r.source?.toList ++ r.targets.filterMap fun p => (t.expand p).toOption

end CommandLine

end Linkage
