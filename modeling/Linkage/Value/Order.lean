import Linkage.BisectionSort
import Linkage.Number.Binary64
import Linkage.Value.Basic

/-!
# Equality and order of values

Numbers of every kind are compared by their exact values, a truth value as zero or one. Texts,
lists, fixed sequences and bytes are ordered from left to right, and sets by inclusion. Values
of other kinds, and of different kinds, have no order. An object that is known by its record
alone equals no other value.
-/

namespace Linkage

/-- A number whose kind is known. -/
inductive Number where
  /-- An integer. -/
  | whole (n : Int)
  /-- A floating point number. -/
  | float (x : Float)

namespace Number

/-- Twice the comparison of `± m * 2 ^ q` with an integer: both sides as integers. -/
def aligned (negative : Bool) (m : Nat) (q : Int) (n : Int) : Int × Int :=
  let (num, den) := scaleByTwo m q
  (if negative then -(num : Int) else (num : Int), n * (den : Int))

/-- Whether one number is less than another. An undefined number is less than none. -/
def less : Number → Number → Bool
  | whole a, whole b => decide (a < b)
  | float x, float y => decide (x < y)
  | float x, whole n =>
    match FloatParts.ofFloat x with
    | .undefined => false
    | .infinite negative => negative
    | .finite negative m q => let (a, b) := aligned negative m q n; decide (a < b)
  | whole n, float x =>
    match FloatParts.ofFloat x with
    | .undefined => false
    | .infinite negative => !negative
    | .finite negative m q => let (a, b) := aligned negative m q n; decide (b < a)

/-- Whether two numbers are equal. An undefined number equals none. -/
def same : Number → Number → Bool
  | whole a, whole b => a == b
  | float x, float y => x == y
  | float x, whole n | whole n, float x =>
    match FloatParts.ofFloat x with
    | .undefined => false
    | .infinite _ => false
    | .finite negative m q => let (a, b) := aligned negative m q n; a == b

end Number

namespace Value

/-- A value as a number. -/
def number? : Value Float → Option Number
  | flag b => some (.whole (if b then 1 else 0))
  | int n => some (.whole n)
  | real x => some (.float x)
  | cell _ (flag b) => some (.whole (if b then 1 else 0))
  | cell _ (int n) => some (.whole n)
  | cell _ (real x) => some (.float x)
  | _ => none

mutual

/-- Whether two values are equal. -/
def same (x y : Value Float) : Bool :=
  match x, y with
  | null, null => true
  | absent, absent => true
  | text s, text t => s == t
  | bytes bs, bytes cs => bs == cs
  | list xs, list ys => sameAll xs ys
  | tuple xs, tuple ys => sameAll xs ys
  | set _ xs, set _ ys => xs.length == ys.length && within xs ys
  | map es, map fs => es.length == fs.length && entriesWithin es fs
  | group m, group n =>
    m.id == n.id && m.nodeId == n.nodeId && m.classes == n.classes &&
      m.averageCoupling == n.averageCoupling
  | settings p, settings q =>
    p.minCoupling == q.minCoupling && p.keepSingletons == q.keepSingletons && p.naming == q.naming
  | x, y =>
    match number? x, number? y with
    | some a, some b => a.same b
    | _, _ => false

/-- Whether two lists hold equal values in the same order. -/
def sameAll : List (Value Float) → List (Value Float) → Bool
  | [], [] => true
  | x :: xs, y :: ys => same x y && sameAll xs ys
  | _, _ => false

/-- Whether every value of a list equals one of another list. -/
def within : List (Value Float) → List (Value Float) → Bool
  | [], _ => true
  | x :: xs, ys => ys.any (fun y => same x y) && within xs ys

/-- Whether every entry of a list equals one of another list. -/
def entriesWithin : List (Value Float × Value Float) → List (Value Float × Value Float) → Bool
  | [], _ => true
  | (k, v) :: es, fs => fs.any (fun f => same k f.1 && same v f.2) && entriesWithin es fs

end

/-- Whether one row of bytes comes before another. -/
def bytesLess : List UInt8 → List UInt8 → Bool
  | [], [] => false
  | [], _ :: _ => true
  | _ :: _, [] => false
  | a :: as, b :: bs => if a == b then bytesLess as bs else decide (a < b)

mutual

/-- Whether one value is less than another; `none` when they have no order. -/
def less? (x y : Value Float) : Option Bool :=
  match x, y with
  | text s, text t => some (decide (s < t))
  | bytes bs, bytes cs => some (bytesLess bs cs)
  | list xs, list ys => lessAll? xs ys
  | tuple xs, tuple ys => lessAll? xs ys
  | set _ xs, set _ ys => some (decide (xs.length < ys.length) && within xs ys)
  | x, y =>
    match number? x, number? y with
    | some a, some b => some (a.less b)
    | _, _ => none

/-- Whether one list is less than another: the first place where they differ decides. -/
def lessAll? : List (Value Float) → List (Value Float) → Option Bool
  | [], [] => some false
  | [], _ :: _ => some true
  | _ :: _, [] => some false
  | x :: xs, y :: ys => if same x y then lessAll? xs ys else less? x y

end

/-- The elements of a list in increasing order of a key; `none` when two of those that are
compared have no order. -/
def sortOn? {β : Type} (key : β → Value Float) (xs : List β) : Option (List β) :=
  BisectionSort.sort? (fun x y => less? (key x) (key y)) xs

/-- Stores a value under a key in a list of entries: in place when the key is there. -/
def store (k v : Value Float) : List (Value Float × Value Float) → List (Value Float × Value Float)
  | [] => [(k, v)]
  | e :: rest => if same e.1 k then (e.1, v) :: rest else e :: store k v rest

/-- The map with the given entries, stored one after the other. -/
def ofEntries (es : List (Value Float × Value Float)) : Value Float :=
  map (es.foldl (fun held e => store e.1 e.2 held) [])

/-- The members of a set; of equal ones the first stays. -/
def distinct (xs : List (Value Float)) : List (Value Float) :=
  xs.foldl (fun held x => if held.any (same · x) then held else held ++ [x]) []

/-- The set with the given members. Members that are all numbers are put in
increasing order. -/
def ofMembers (frozen : Bool) (xs : List (Value Float)) : Value Float :=
  let members := distinct xs
  set frozen
    (if members.all (number? · |>.isSome) then (sortOn? id members).getD members else members)

end Value

end Linkage
