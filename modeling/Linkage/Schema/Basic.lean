import Linkage.Scalar
import Linkage.Value.Basic

/-!
# Schemas

A schema is a list of rules for values: which kinds of value are allowed, which fields an
object has, and what holds of texts and numbers. A rule says nothing about values of a kind
that it is not made for. What a value does against a schema is listed in the order of the
rules.

A truth value is no number, and a number counts as an integer when it is a whole number. A
number out of a typed array is a number, and an integer only in the widest floating point
format.
-/

namespace Linkage

namespace Schema

/-- The kinds of value that a schema tells apart. -/
inductive Kind where
  | object | array | string | null | boolean | number | integer
  deriving DecidableEq, Repr

/-- A value that a schema asks for. -/
inductive Constant where
  /-- A truth value. -/
  | flag (b : Bool)
  /-- An integer. -/
  | int (n : Int)
  deriving DecidableEq, Repr

/-- A **rule** of a schema. -/
inductive Rule where
  /-- The value is of one of some kinds. -/
  | kinds (allowed : List Kind)
  /-- An object has some fields. -/
  | required (names : List String)
  /-- The fields of an object with some names follow rules. -/
  | fields (rules : List (String × List Rule))
  /-- The fields of an object with other names follow rules. -/
  | otherFields (known : List String) (rules : List Rule)
  /-- An object has no fields with other names. -/
  | noOtherFields (known : List String)
  /-- The value follows the rules of one alternative. -/
  | oneOf (alternatives : List (List Rule))
  /-- The items of a list follow rules. -/
  | items (rules : List Rule)
  /-- A text is not empty. -/
  | nonEmpty
  /-- A number is at least a bound. -/
  | atLeast (bound : Int)
  /-- A number is at most a bound. -/
  | atMost (bound : Int)
  /-- The value equals a constant. -/
  | constant (c : Constant)
  /-- A value that follows the first rules follows the second, and any other the third. -/
  | branch (condition yes no : List Rule)

end Schema

/-- A **schema**: rules in the order in which they are looked at. -/
abbrev Schema := List Schema.Rule

namespace Schema

variable {α : Type}

/-- A step into a value. -/
inductive Step (α : Type) where
  /-- Into a field of an object. -/
  | field (key : Value α)
  /-- Into an item of a list. -/
  | item (position : Nat)

/-- What a value does against a rule. -/
inductive Offence (α : Type) where
  /-- The value is of none of the kinds. -/
  | wrongKind (v : Value α) (allowed : List Kind)
  /-- A field is missing. -/
  | lacking (name : String)
  /-- There are fields with other names. -/
  | unexpected (keys : List (Value α))
  /-- The value follows none of the alternatives. -/
  | unmatched (v : Value α)
  /-- A text is empty. -/
  | empty (v : Value α)
  /-- A number is less than a bound. -/
  | below (v : Value α) (bound : Int)
  /-- A number is greater than a bound. -/
  | above (v : Value α) (bound : Int)
  /-- A value differs from a constant. -/
  | differs (c : Constant)

/-- A **violation** of a schema: the way into the value, and what is wrong there. -/
structure Violation (α : Type) where
  /-- The way into the value. -/
  path : List (Step α)
  /-- What is wrong. -/
  offence : Offence α

/-- A violation seen from one step further out. -/
def Violation.within (s : Step α) (v : Violation α) : Violation α := { v with path := s :: v.path }

/-- A violation at the value itself. -/
def here (o : Offence α) : List (Violation α) := [⟨[], o⟩]

/-- Whether a key is one of some names. -/
def isAmong (names : List String) : Value α → Bool
  | .text s => names.contains s
  | _ => false

variable [Scalar α]

/-- Whether a value is of a kind. -/
def hasKind (v : Value α) : Kind → Bool
  | .object => match v with | .map _ => true | _ => false
  | .array => match v with | .list _ => true | _ => false
  | .string => match v with | .text _ => true | _ => false
  | .null => match v with | .null => true | _ => false
  | .boolean => match v with | .flag _ => true | _ => false
  | .number =>
    match v with
    | .int _ | .real _ | .cell .double _ | .cell .single _ | .cell .integer _ => true
    | _ => false
  | .integer =>
    match v with
    | .int _ => true
    | .real x | .cell .double (.real x) => Scalar.isWhole x
    | _ => false

/-- Whether a scalar is less than an integer. -/
def scalarBelow (x : α) (n : Int) : Bool :=
  match Scalar.ofInt? n with
  | some y => decide (x < y)
  | none => false

/-- Whether a scalar is greater than an integer. -/
def scalarAbove (x : α) (n : Int) : Bool :=
  match Scalar.ofInt? n with
  | some y => decide (y < x)
  | none => false

/-- Whether a value is a number less than a bound. -/
def isBelow (bound : Int) : Value α → Bool
  | .int n | .cell .integer (.int n) => decide (n < bound)
  | .real x | .cell .double (.real x) | .cell .single (.real x) => scalarBelow x bound
  | _ => false

/-- Whether a value is a number greater than a bound. -/
def isAbove (bound : Int) : Value α → Bool
  | .int n | .cell .integer (.int n) => decide (bound < n)
  | .real x | .cell .double (.real x) | .cell .single (.real x) => scalarAbove x bound
  | _ => false

/-- Whether a scalar equals an integer. -/
def scalarEquals (x : α) (n : Int) : Bool :=
  match Scalar.ofInt? n with
  | some y => x == y
  | none => false

/-- Whether a value equals a constant. -/
def equals (v : Value α) : Constant → Bool
  | .flag b => match v with | .flag c => b == c | _ => false
  | .int n =>
    match v with
    | .int m | .cell .integer (.int m) => m == n
    | .real x | .cell .double (.real x) | .cell .single (.real x) => scalarEquals x n
    | .cell .flag (.flag b) => (if b then 1 else 0) == n
    | _ => false

/-- The names that an object lacks. -/
def lackingNames (names : List String) (es : List (Value α × Value α)) : List String :=
  names.filter fun name => (Value.field? name es).isNone

mutual

/-- What a value does against a rule. -/
def Rule.violations (v : Value α) : Rule → List (Violation α)
  | .kinds allowed => if allowed.any (hasKind v) then [] else here (.wrongKind v allowed)
  | .required names =>
    match v with
    | .map es => (lackingNames names es).flatMap fun name => here (.lacking name)
    | _ => []
  | .fields rules =>
    match v with
    | .map es => fieldViolations es rules
    | _ => []
  | .otherFields known rules =>
    match v with
    | .map es =>
      (es.filter fun e => !isAmong known e.1).flatMap fun e =>
        (listViolations e.2 rules).map (Violation.within (.field e.1))
    | _ => []
  | .noOtherFields known =>
    match v with
    | .map es =>
      match (es.filter fun e => !isAmong known e.1).map Prod.fst with
      | [] => []
      | keys => here (.unexpected keys)
    | _ => []
  | .oneOf alternatives => if followsOne v alternatives then [] else here (.unmatched v)
  | .items rules =>
    match v with
    | .list xs =>
      xs.zipIdx.flatMap fun x => (listViolations x.1 rules).map (Violation.within (.item x.2))
    | _ => []
  | .nonEmpty =>
    match v with
    | .text s => if s.isEmpty then here (.empty v) else []
    | _ => []
  | .atLeast bound => if isBelow bound v then here (.below v bound) else []
  | .atMost bound => if isAbove bound v then here (.above v bound) else []
  | .constant c => if equals v c then [] else here (.differs c)
  | .branch condition yes no =>
    if (listViolations v condition).isEmpty then listViolations v yes else listViolations v no

/-- What a value does against the rules of a list. -/
def listViolations (v : Value α) : List Rule → List (Violation α)
  | [] => []
  | r :: rest => r.violations v ++ listViolations v rest

/-- What the fields of an object do against the rules for them. -/
def fieldViolations (es : List (Value α × Value α)) :
    List (String × List Rule) → List (Violation α)
  | [] => []
  | (name, rules) :: rest =>
    (match Value.field? name es with
      | none => []
      | some v => (listViolations v rules).map (Violation.within (.field (.text name)))) ++
      fieldViolations es rest

/-- Whether a value follows the rules of one of some alternatives. -/
def followsOne (v : Value α) : List (List Rule) → Bool
  | [] => false
  | rules :: rest => (listViolations v rules).isEmpty || followsOne v rest

end

/-- What a value does against a schema. -/
def violations (s : Schema) (v : Value α) : List (Violation α) := listViolations v s

/-- Whether a value follows a schema. -/
def accepts (s : Schema) (v : Value α) : Bool := (s.violations v).isEmpty

end Schema

end Linkage
