import Linkage.Fingerprint.Digest
import Linkage.Json.Writer
import Linkage.Number.FixedPlaces
import Linkage.Value.Text

/-!
# Fingerprints

The fingerprint of a value is the digest of a document that does not depend on how the value
happens to be presented. Maps are sorted by the texts of their keys, sets become sorted lists,
modules and parameters become their fields, other objects the records they give, and scalars
are rounded to twelve decimal places. A value of any other kind becomes its exact text.
-/

namespace Linkage.Fingerprint

open Linkage.Json

/-- The number of decimal places that a fingerprint sees. -/
def places : Nat := 12

/-- Entries sorted by key, where of equal keys the last value stays. -/
def keyed (es : List (String × Except WriteError (Value Float))) :
    List (String × Except WriteError (Value Float)) :=
  (OrderedMap.ofList (es.mergeSort fun a b => decide (a.1 ≤ b.1))).entries

/-- Values that have all been presented, or the first reason against one. -/
def presentedAll : List (Except WriteError (Value Float)) → Except WriteError (List (Value Float))
  | [] => .ok []
  | .error e :: _ => .error e
  | .ok v :: rest => (presentedAll rest).map (v :: ·)

/-- A map from texts whose values have all been presented. -/
def presentedMap (es : List (String × Except WriteError (Value Float))) :
    Except WriteError (Value Float) :=
  (presentedAll (es.map Prod.snd)).map fun vs => .record ((es.map Prod.fst).zip vs)

/-- A simple value as a fingerprint sees it. -/
def presentScalar : Value Float → Value Float
  | .real x => .real (roundPlaces places x)
  | v => v

/-- The fields of a module as a fingerprint sees them. -/
def presentModule (m : Module Float) : Value Float :=
  Module.toValue { m with averageCoupling := roundPlaces places m.averageCoupling }

/-- The fields of parameters as a fingerprint sees them. -/
def presentParameters (p : Parameters Float) : Value Float :=
  Parameters.toValue { p with minCoupling := roundPlaces places p.minCoupling }

mutual

/-- A value as a fingerprint sees it. -/
def present : Value Float → Except WriteError (Value Float)
  | .map es => presentedMap (keyed (presentEntries es))
  | .list xs => (presentedAll (presentEach xs)).map .list
  | .tuple xs => (presentedAll (presentEach xs)).map .list
  | .set _ xs => do
    let vs ← presentedAll (presentEach xs)
    match Value.sortOn? id vs with
    | some sorted => pure (.list sorted)
    | none => throw .unordered
  | .group m => .ok (presentModule m)
  | .settings p => .ok (presentParameters p)
  | .object _ _ _ record => present record
  | .cell _ v => .ok (presentScalar v)
  | .bytes bs => .ok (.text (Value.exact (.bytes bs)))
  | .absent => .ok (.text (Value.exact .absent))
  | .null => .ok .null
  | .flag b => .ok (.flag b)
  | .int n => .ok (.int n)
  | .text s => .ok (.text s)
  | .real x => .ok (presentScalar (.real x))

/-- The values of a list as a fingerprint sees them. -/
def presentEach : List (Value Float) → List (Except WriteError (Value Float))
  | [] => []
  | v :: rest => present v :: presentEach rest

/-- The entries of a map as a fingerprint sees them. -/
def presentEntries :
    List (Value Float × Value Float) → List (String × Except WriteError (Value Float))
  | [] => []
  | (k, v) :: rest => (k.plain, present v) :: presentEntries rest

end

/-- The document behind a fingerprint. -/
def text (v : Value Float) : Except WriteError String := do
  let w ← present v
  document .fingerprint w

/-- The **fingerprint** of a value. -/
def of (v : Value Float) : Except WriteError String := (text v).map Digest.ofString

/-- What the fingerprint of a list of modules is taken of: their classes and averages. -/
def ofModulesValue (modules : List (Module Float)) : Value Float :=
  .list (modules.map fun m =>
    .record [("classes", .texts m.classes), ("average_coupling", .real m.averageCoupling)])

/-- The document behind the fingerprint of a list of modules. Lists of modules are never
refused. -/
def modulesText (modules : List (Module Float)) : String :=
  match text (ofModulesValue modules) with
  | .ok s => s
  | .error _ => ""

/-- The fingerprint of a list of modules. -/
def ofModules (modules : List (Module Float)) : String := Digest.ofString (modulesText modules)

end Linkage.Fingerprint
