import Linkage.Json.Escape
import Linkage.Number.Shortest
import Linkage.Value.Order

/-!
# Writing documents

A value is written as a document of objects, lists, texts, numbers, truth values and nulls. A
set is written as a sorted list. Keys may be sorted; they are sorted as values, before they are
turned into text.

A value of a kind that documents do not have is refused, and so are keys or members that have
no order when they are to be sorted.
-/

namespace Linkage.Json

/-- How a document is laid out. -/
structure Layout where
  /-- The number of blanks per level; none puts the document on one line. -/
  indent : Option Nat
  /-- Whether keys are sorted. -/
  sortKeys : Bool
  /-- Whether only printable Latin characters are written. -/
  latin : Bool

/-- Why a value cannot be written. -/
inductive WriteError where
  /-- Documents have no values of the named kind. -/
  | unserialisable (kind : String)
  /-- Two keys or members have no order. -/
  | unordered
  /-- A key is of a kind that has no text. -/
  | invalidKey
  deriving DecidableEq, Repr

/-- The wording for a value that cannot be written, where there is one. -/
def WriteError.message? : WriteError → Option String
  | unserialisable kind => some s!"Object of type {kind} is not JSON serialisable"
  | _ => none

namespace Layout

/-- The break before an item at a depth. -/
def lineBreak (l : Layout) (depth : Nat) : String :=
  match l.indent with
  | none => ""
  | some n => "\n" ++ String.ofList (List.replicate (n * depth) ' ')

/-- What stands between two items at a depth. -/
def separator (l : Layout) (depth : Nat) : String :=
  match l.indent with
  | none => ", "
  | some _ => "," ++ l.lineBreak depth

/-- Items at a depth between two brackets. -/
def enclose (l : Layout) (depth : Nat) (opening closing : String) (items : List String) : String :=
  if items.isEmpty then opening ++ closing
  else
    opening ++ l.lineBreak (depth + 1) ++ Text.join (l.separator (depth + 1)) items ++
      l.lineBreak depth ++ closing

end Layout

/-- The word for a truth value. -/
def flagWord (b : Bool) : String := if b then "true" else "false"

/-- The text of a key. -/
def keyText? : Value Float → Option String
  | .text s => some s
  | .real x => some (NumberSpelling.document.text x)
  | .cell .double (.real x) => some (NumberSpelling.document.text x)
  | .flag b => some (flagWord b)
  | .null => some "null"
  | .int n => some (toString n)
  | _ => none

/-- An entry whose value has been written. -/
abbrev WrittenEntry := Value Float × Except WriteError String

/-- Written items, or the first reason against one. -/
def collect : List (Except WriteError String) → Except WriteError (List String)
  | [] => .ok []
  | .error e :: _ => .error e
  | .ok s :: rest => (collect rest).map (s :: ·)

/-- The text of an entry. -/
def entryText (l : Layout) (e : WrittenEntry) : Except WriteError String :=
  match keyText? e.1 with
  | none => .error .invalidKey
  | some k => e.2.map fun v => escaped l.latin k ++ ": " ++ v

/-- The elements of a list in the order in which they are written. -/
def arranged (sort : Bool) (es : List WrittenEntry) : Except WriteError (List WrittenEntry) :=
  if sort then
    match Value.sortOn? Prod.fst es with
    | some sorted => .ok sorted
    | none => .error .unordered
  else .ok es

mutual

/-- A value as a document whose lines are at a depth. -/
def write (l : Layout) (depth : Nat) : Value Float → Except WriteError String
  | .null => .ok "null"
  | .flag b => .ok (flagWord b)
  | .int n => .ok (toString n)
  | .real x => .ok (NumberSpelling.document.text x)
  | .text s => .ok (escaped l.latin s)
  | .list xs => (collect (writeAll l (depth + 1) xs)).map (l.enclose depth "[" "]")
  | .tuple xs => (collect (writeAll l (depth + 1) xs)).map (l.enclose depth "[" "]")
  | .set _ xs => do
    let es ← arranged true (xs.zip (writeAll l (depth + 1) xs))
    (collect (es.map Prod.snd)).map (l.enclose depth "[" "]")
  | .map es => do
    let es ← arranged l.sortKeys (writeEntries l (depth + 1) es)
    (collect (es.map (entryText l))).map (l.enclose depth "\x7b" "\x7d")
  | .cell _ v => write l depth v
  | .bytes _ => .error (.unserialisable "bytes")
  | .absent => .error (.unserialisable "NAType")
  | .group _ => .error (.unserialisable "Module")
  | .settings _ => .error (.unserialisable "ClusteringParameters")
  | .object kind _ _ _ => .error (.unserialisable kind)

/-- The documents of a list of values. -/
def writeAll (l : Layout) (depth : Nat) : List (Value Float) → List (Except WriteError String)
  | [] => []
  | v :: rest => write l depth v :: writeAll l depth rest

/-- Keys with the documents of their values. -/
def writeEntries (l : Layout) (depth : Nat) : List (Value Float × Value Float) → List WrittenEntry
  | [] => []
  | (k, v) :: rest => (k, write l depth v) :: writeEntries l depth rest

end

/-- The layout of diagnostics: indented, with sorted keys, in Latin characters. -/
def Layout.diagnostics : Layout := ⟨some 2, true, true⟩

/-- The layout of a coupling graph: indented, keys in their own order, in Latin characters. -/
def Layout.graph : Layout := ⟨some 2, false, true⟩

/-- The layout of the text behind a fingerprint: one line with sorted keys. -/
def Layout.fingerprint : Layout := ⟨none, true, false⟩

/-- A value as a document. -/
def document (l : Layout) (v : Value Float) : Except WriteError String := write l 0 v

end Linkage.Json
