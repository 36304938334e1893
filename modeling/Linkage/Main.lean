import Linkage.CommandLine.Program
import Linkage.CommandLine.Reach
import Std.Time.DateTime.Timestamp

/-!
# The command line

Takes what a request reaches from the file system into a file tree, runs the program on it, and
carries out what the run has changed.
-/

namespace Linkage.CommandLine

/-- The text of a place of a file tree. -/
def placeText (place : Place) : String := "/" ++ Text.join "/" place

/-- Takes in what lies at a place and, when that is a directory, what lies directly in it. The
texts of files are left out. -/
def takeIn (t : FileTree) (place : Place) : IO FileTree := do
  let path := (← IO.currentDir) / placeText place
  if ← path.isDir then
    let mut t := t.store place .directory
    for e in ← path.readDir do
      t := t.store (place ++ [e.fileName]) (if ← e.path.isDir then .directory else .columns)
    return t
  else return t

/-- Takes in the text of a file. -/
def takeInText (t : FileTree) (p : FilePath) : IO FileTree := do
  match t.placeOf p with
  | .error _ => return t
  | .ok place =>
    match t.isFile p with
    | .ok true => return t.store place (.text (← IO.FS.readFile (placeText place)))
    | _ => return t

/-- The file tree that a request reaches. -/
def reached (request : Option Request) : IO FileTree := do
  let here := FilePath.read (← IO.currentDir).toString
  let accounts := (← IO.getEnv "HOME").toList.map fun s => ("", FilePath.read s)
  let mut t : FileTree := ⟨here.names, accounts, OrderedMap.empty⟩
  match request with
  | none => return t
  | some r =>
    for p in r.paths t do
      for place in FileTree.way (t.start p) p.names do
        t ← takeIn t place
    match r.source? with
    | none => return t
    | some p => takeInText t p

/-- Carries out the difference between two file trees. Tables in a columnar form become empty
files. -/
def carryOut (before after : FileTree) : IO Unit := do
  for (place, e) in after.entries.entries do
    if before.entries.get? place ≠ some e then
      match e with
      | .directory => IO.FS.createDirAll (placeText place)
      | .text s => IO.FS.writeFile (placeText place) s
      | .columns => IO.FS.writeFile (placeText place) ""

/-- The number of levels of nesting that the stack is taken to leave for all that walks through
a document. -/
def usualLevels : Nat := 950

/-- What a command meets apart from its files: the time, to the microsecond, and the stack. -/
def surroundings : IO Surroundings := do
  let t ← Std.Time.Timestamp.now
  return ⟨.ofMicros (t.toNanosecondsSinceUnixEpoch.val.toNat / 1000), usualLevels⟩

/-- The request on a command line, if it is in order. -/
def requestIn (words : List String) : Option Request :=
  match readCommandLine words with
  | .ok i => if i.showsVersion then none else i.request
  | .error _ => none

/-- The number that a run ends with. -/
def Exit.number : Exit → UInt32
  | code n => n.toUInt32
  | text _ => 1
  | failure _ => 1

/-- What is said about a failure that is no part of the dealings with a user. -/
def Exit.remark : Exit → String
  | failure _ => "Error: the command could not be completed\n"
  | _ => ""

end Linkage.CommandLine

open Linkage.CommandLine in
/-- Runs the program on the words of a command line. -/
def main (words : List String) : IO UInt32 := do
  let before ← reached (requestIn words)
  let r := run (← surroundings) words before
  carryOut before r.tree
  IO.print r.printed
  IO.eprint (r.complaints ++ r.exit.remark)
  return r.exit.number
