import Linkage.Module.Text
import Linkage.Number.Shortest
import Linkage.Text.Quoted
import Linkage.Value.Basic

/-!
# Text of a value

A value is written in two ways: plainly, where a text stands for itself, and exactly, where
texts are quoted. Inside a list, a set or a map everything is written exactly, inside a
sentence nearly everything plainly.
-/

namespace Linkage

/-- The word for a truth value. -/
def flagWord (b : Bool) : String := if b then "True" else "False"

namespace Value

/-- The texts of a fixed sequence as a whole: a single one is followed by a comma. -/
def tupleText : List String → String
  | [x] => "(" ++ x ++ ",)"
  | xs => "(" ++ Text.join ", " xs ++ ")"

mutual

/-- The exact text of a value. -/
def exact : Value Float → String
  | null => "None"
  | flag b => flagWord b
  | int n => toString n
  | real x => shortest x
  | text s => Text.quoted s
  | list xs => "[" ++ Text.join ", " (exactAll xs) ++ "]"
  | tuple xs => tupleText (exactAll xs)
  | set false [] => "set()"
  | set true [] => "frozenset()"
  | set false xs => "\x7b" ++ Text.join ", " (exactAll xs) ++ "\x7d"
  | set true xs => "frozenset(\x7b" ++ Text.join ", " (exactAll xs) ++ "\x7d)"
  | map es => "\x7b" ++ Text.join ", " (exactEntries es) ++ "\x7d"
  | bytes bs => Text.quotedBytes bs
  | cell .double v => "np.float64(" ++ exact v ++ ")"
  | cell .single (real x) => "np.float32(" ++ NumberSpelling.report.singleText x ++ ")"
  | cell .single v => "np.float32(" ++ exact v ++ ")"
  | cell .integer v => "np.int64(" ++ exact v ++ ")"
  | cell .flag v => "np." ++ exact v ++ "_"
  | absent => "<NA>"
  | group m => "Module(module_id=" ++ Text.quoted m.id ++ ", node_id=" ++ Text.quoted m.nodeId ++
      ", classes=" ++ tupleText (m.classes.map Text.quoted) ++ ", average_coupling=" ++
      shortest m.averageCoupling ++ ")"
  | settings p => "ClusteringParameters(min_coupling=" ++ shortest p.minCoupling ++
      ", keep_singletons=" ++ flagWord p.keepSingletons ++ ", module_prefix=" ++
      Text.quoted p.naming ++ ")"
  | object _ _ exactText _ => exactText

/-- The exact texts of a list of values. -/
def exactAll : List (Value Float) → List String
  | [] => []
  | v :: rest => exact v :: exactAll rest

/-- The exact texts of the entries of a map. -/
def exactEntries : List (Value Float × Value Float) → List String
  | [] => []
  | (k, v) :: rest => (exact k ++ ": " ++ exact v) :: exactEntries rest

end

/-- The plain text of a value. -/
def plain : Value Float → String
  | text s => s
  | cell .single (real x) => NumberSpelling.report.singleText x
  | cell _ v => exact v
  | group m => m.title
  | object _ plainText _ _ => plainText
  | v => exact v

/-- The text of a value inside a sentence: the plain one, but a number of single precision is
written as one of double precision. -/
def inSentence : Value Float → String
  | cell .single (real x) => shortest x
  | v => plain v

end Value

end Linkage
