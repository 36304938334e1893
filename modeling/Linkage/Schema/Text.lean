import Linkage.Schema.Basic
import Linkage.Value.Text

/-!
# Text of a violation

A violation is written as what is wrong, followed by the way to it when it lies inside the
value.
-/

namespace Linkage.Schema

/-- The name of a kind. -/
def Kind.label : Kind → String
  | object => "object"
  | array => "array"
  | string => "string"
  | null => "null"
  | boolean => "boolean"
  | number => "number"
  | integer => "integer"

/-- The text of a constant. -/
def Constant.text : Constant → String
  | flag b => flagWord b
  | int n => toString n

/-- Keys in increasing order of their plain texts. -/
def sortedKeys (keys : List (Value Float)) : List (Value Float) :=
  keys.mergeSort fun a b => decide (a.plain ≤ b.plain)

/-- The wording for what a value does against a rule. -/
def Offence.message : Offence Float → String
  | wrongKind v allowed =>
    v.exact ++ " is not of type " ++ Text.join ", " (allowed.map fun k => Text.quoted k.label)
  | lacking name => Text.quoted name ++ " is a required property"
  | unexpected keys =>
    "Additional properties are not allowed (" ++
      Text.join ", " ((sortedKeys keys).map Value.exact) ++
      (if keys.length = 1 then " was" else " were") ++ " unexpected)"
  | unmatched v => v.exact ++ " is not valid under any of the given schemas"
  | empty v => v.exact ++ " should be non-empty"
  | below v bound => v.exact ++ " is less than the minimum of " ++ toString bound
  | above v bound => v.exact ++ " is greater than the maximum of " ++ toString bound
  | differs c => c.text ++ " was expected"

/-- The text of a step. -/
def Step.text : Step Float → String
  | field key => key.plain
  | item position => toString position

/-- The wording for a violation. -/
def Violation.message (v : Violation Float) : String :=
  let what := v.offence.message
  if v.path.isEmpty then what
  else what ++ " (path: " ++ Text.join "." (v.path.map Step.text) ++ ")"

end Linkage.Schema
