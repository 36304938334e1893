import Linkage.File.Path
import Linkage.OrderedMap
import Linkage.Text.Quoted

/-!
# File trees

Directories and files below a root, and the working directory from which relative paths are
read. A file holds a text, or a table in a columnar form whose content is not kept. A relative
path whose first name is a tilde and the name of a user may stand for a path from the home
directory of that user; the name of the user at work is left out.

A name has a largest size, and so has a path. A name is looked at in the directory that it is
looked up in, after the names before it.

An action on a file tree may fail. What it changed before it failed stays changed, so an action
is an answer or a failure together with the tree it leaves behind.

## Main results

* `FileTree.entryAt_store`: the entry stored last is the one that is found.
* `FileTree.home_store`: storing an entry does not move the working directory.
-/

namespace Linkage

/-- What lies at a place of a file tree. -/
inductive FileEntry where
  /-- A directory. -/
  | directory
  /-- A file with a text. -/
  | text (content : String)
  /-- A file with a table in a columnar form. -/
  | columns
  deriving DecidableEq, Repr

/-- A **place**: the names that lead from the root to an entry. -/
abbrev Place := List String

/-- A **file tree**. -/
structure FileTree where
  /-- The place of the working directory. -/
  home : Place
  /-- The home directories of users by their names. -/
  accounts : List (String × FilePath)
  /-- The entries. The directories that lead to the working directory need none. -/
  entries : OrderedMap Place FileEntry

/-- What stands in the way of an action on a file tree. -/
inductive FileFault where
  /-- There is no entry. -/
  | missing
  /-- There is an entry already. -/
  | taken
  /-- A directory is needed and there is a file. -/
  | notDirectory
  /-- A file is needed and there is a directory. -/
  | isDirectory
  /-- A name or the path is too long. -/
  | tooLong
  /-- A name holds the zero character. -/
  | zeroCharacter
  /-- There is no user of that name. -/
  | noUser
  deriving DecidableEq, Repr

namespace FileFault

/-- The number of a fault that a file system has a number for. -/
def number? : FileFault → Option Nat
  | missing => some 2
  | taken => some 17
  | notDirectory => some 20
  | isDirectory => some 21
  | tooLong => some 36
  | zeroCharacter => none
  | noUser => none

/-- The wording for a fault. -/
def wording : FileFault → String
  | missing => "No such file or directory"
  | taken => "File exists"
  | notDirectory => "Not a directory"
  | isDirectory => "Is a directory"
  | tooLong => "File name too long"
  | zeroCharacter => "embedded null byte"
  | noUser => "Could not determine home directory."

end FileFault

/-- A fault and the path that met it. -/
structure FileError where
  /-- What stands in the way. -/
  fault : FileFault
  /-- The path. -/
  path : FilePath
  deriving DecidableEq, Repr

/-- The wording for a fault at a path. -/
def FileError.message (e : FileError) : String :=
  match e.fault.number? with
  | some n => "[Errno " ++ toString n ++ "] " ++ e.fault.wording ++ ": " ++ Text.quoted e.path.text
  | none => e.fault.wording

/-- An **action on a file tree** with failures of a type: what it changed before it failed
stays changed. -/
abbrev FileAction (ε α : Type) := ExceptT ε (StateM FileTree) α

namespace FileTree

/-- The entry at a place. The root and the way to the working directory are directories. -/
def entryAt (t : FileTree) (place : Place) : Option FileEntry :=
  if place.isPrefixOf t.home then some .directory else t.entries.get? place

/-- The tree with an entry stored at a place. -/
def store (t : FileTree) (place : Place) (e : FileEntry) : FileTree :=
  { t with entries := t.entries.insert place e }

/-- Storing an entry leaves the home directory where it is. -/
theorem home_store (t : FileTree) (place : Place) (e : FileEntry) :
    (t.store place e).home = t.home := rfl

/-- An entry that is stored away from the home directory is found at its place, and the others
stay. -/
theorem entryAt_store (t : FileTree) (place place' : Place) (e : FileEntry)
    (h : ¬ place'.isPrefixOf t.home) :
    (t.store place e).entryAt place' = if place = place' then some e else t.entryAt place' := by
  simp [entryAt, store, h, OrderedMap.get?_insert]

/-- One step from a directory: a pair of dots leads up, and the root is above itself. -/
def step (place : Place) (name : String) : Place :=
  if name = ".." then place.dropLast else place ++ [name]

/-- The largest number of bytes of a name. -/
def maxNameSize : Nat := 255

/-- The largest number of bytes of a path. -/
def maxPathSize : Nat := 4095

/-- The place that names lead to. Every place on the way has to be a directory; the last one
may be anything or nothing. -/
def follow (t : FileTree) : Place → List String → Except FileFault Place
  | place, [] => .ok place
  | place, name :: rest =>
    match t.entryAt place with
    | none => .error .missing
    | some .directory =>
      if maxNameSize < name.utf8ByteSize then .error .tooLong else t.follow (step place name) rest
    | some _ => .error .notDirectory

/-- The place from which a path is read. -/
def start (t : FileTree) (p : FilePath) : Place := if p.root.isSome then [] else t.home

/-- The place of a path. -/
def placeOf (t : FileTree) (p : FilePath) : Except FileFault Place :=
  if p.hasZero then .error .zeroCharacter
  else if maxPathSize < p.text.utf8ByteSize then .error .tooLong
  else t.follow (t.start p) p.names

/-- The entry of a path. -/
def look (t : FileTree) (p : FilePath) : Except FileError FileEntry :=
  match t.placeOf p with
  | .error fault => .error ⟨fault, p⟩
  | .ok place =>
    match t.entryAt place with
    | none => .error ⟨.missing, p⟩
    | some e => .ok e

/-- Whether a path leads to a directory. -/
def isDirectory (t : FileTree) (p : FilePath) : Bool :=
  match t.look p with
  | .ok .directory => true
  | _ => false

/-- Whether a path leads to a file. Only a path that is too long leaves that open. -/
def isFile (t : FileTree) (p : FilePath) : Except FileError Bool :=
  match t.look p with
  | .ok .directory => .ok false
  | .ok _ => .ok true
  | .error ⟨.tooLong, q⟩ => .error ⟨.tooLong, q⟩
  | .error _ => .ok false

/-- A path with the home directory of a user in place of a tilde and the name of that user at
its beginning. -/
def expand (t : FileTree) (p : FilePath) : Except FileError FilePath :=
  match p.root, p.names with
  | none, name :: rest =>
    match name.toList with
    | '~' :: user =>
      if user.contains '\x00' then .error ⟨.zeroCharacter, p⟩
      else
        match t.accounts.lookup (String.ofList user) with
        | some q => .ok { q with names := q.names ++ rest }
        | none => .error ⟨.noUser, p⟩
    | _ => .ok p
  | _, _ => .ok p

/-- A path from the root with every pair of dots taken away together with the name
before it. -/
def resolve (t : FileTree) (p : FilePath) : FilePath :=
  ⟨some "/", p.names.foldl step (t.start p)⟩

/-- The path from the root that a path stands for. -/
def locate (t : FileTree) (p : FilePath) : Except FileError FilePath := do
  let q ← t.expand p
  if q.hasZero then throw ⟨.zeroCharacter, q⟩
  return t.resolve q

/-- The text of a file. -/
def readText (t : FileTree) (p : FilePath) : Except FileError String :=
  match t.look p with
  | .error e => .error e
  | .ok .directory => .error ⟨.isDirectory, p⟩
  | .ok .columns => .ok ""
  | .ok (.text s) => .ok s

end FileTree

namespace FileAction

/-- The answer about the tree as it is. -/
def ask {ε α : Type} (f : FileTree → α) : FileAction ε α := do return f (← get)

/-- Fails when an answer about the tree is a failure. -/
def demand {ε α : Type} (f : FileTree → Except ε α) : FileAction ε α := do
  match f (← get) with
  | .ok x => pure x
  | .error e => throw e

/-- An action with its failures renamed. -/
def mapFailure {ε δ α : Type} (f : ε → δ) (a : FileAction ε α) : FileAction δ α :=
  ExceptT.mk (do
    match ← a.run with
    | .ok x => pure (.ok x)
    | .error e => pure (.error (f e)))

/-- Makes a directory in a directory that is there. -/
def makeDirectory (p : FilePath) : FileAction FileError Unit := do
  let t ← get
  match t.placeOf p with
  | .error fault => throw ⟨fault, p⟩
  | .ok place =>
    match t.entryAt place with
    | some _ => throw ⟨.taken, p⟩
    | none => set (t.store place .directory)

/-- Makes a directory unless it is there. -/
def ensureDirectory (p : FilePath) : FileAction FileError Unit :=
  tryCatch (makeDirectory p) fun e => do
    if e.fault != .missing && (← ask (·.isDirectory p)) then pure () else throw e

/-- Makes a directory and those that lead to it, unless they are there. The names are given
from the last to the first. -/
def ensureAlong (root : Option String) : List String → FileAction FileError Unit
  | [] => ensureDirectory ⟨root, []⟩
  | name :: up =>
    let p : FilePath := ⟨root, (name :: up).reverse⟩
    tryCatch (makeDirectory p) fun e => do
      if e.fault = .missing then
        ensureAlong root up
        ensureDirectory p
      else if ← ask (·.isDirectory p) then pure () else throw e

/-- Makes a directory and those that lead to it, unless they are there. -/
def ensureDirectories (p : FilePath) : FileAction FileError Unit :=
  ensureAlong p.root p.names.reverse

/-- Writes a file in a directory that is there, in place of a file of that name. -/
def write (p : FilePath) (e : FileEntry) : FileAction FileError Unit := do
  let t ← get
  match t.placeOf p with
  | .error fault => throw ⟨fault, p⟩
  | .ok place =>
    match t.entryAt place with
    | some .directory => throw ⟨.isDirectory, p⟩
    | _ => set (t.store place e)

end FileAction

end Linkage
