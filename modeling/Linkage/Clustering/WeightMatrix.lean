import Linkage.Coupling.Table

/-!
# Weight matrices

The weights of a table as a square over a list of classes. The square starts with zeros, and
the entries of the table are entered in their order: a weight is written to both cells of its
two classes while the cell that the entry names is zero. An entry that names a class outside
the list is passed over, and so is one of a class with itself.

A cell therefore comes to hold the first weight other than zero that the table stores for its
two classes, in either direction.
-/

namespace Linkage

variable {α : Type} [Scalar α]

/-! ### Entering a table -/

namespace WeightMatrix

/-- The last place of each class in a list. -/
def places (classes : List String) : OrderedMap String Nat := .ofList classes.zipIdx

/-- A cell by its row and column. -/
def cellAt (rows : List (List α)) (i j : Nat) : α := (rows.getD i []).getD j 0

/-- The rows with a value written to one cell. -/
def setCell (rows : List (List α)) (i j : Nat) (x : α) : List (List α) :=
  rows.modify i fun row => row.set j x

/-- The rows with a value written to the two cells of a pair of places. -/
def setBoth (rows : List (List α)) (i j : Nat) (x : α) : List (List α) :=
  setCell (setCell rows i j x) j i x

/-- A square of zeros. -/
def zeros (size : Nat) : List (List α) := List.replicate size (List.replicate size 0)

/-- The rows after an entry of a table is entered. -/
def enter (places : OrderedMap String Nat) (rows : List (List α)) (entry : ClassPair × α) :
    List (List α) :=
  match places.get? entry.1.1, places.get? entry.1.2 with
  | some i, some j =>
    if i = j then rows
    else if cellAt rows i j == 0 then setBoth rows i j entry.2
    else rows
  | _, _ => rows

end WeightMatrix

/-- The rows of the weight matrix of a list of classes. -/
def weightMatrix (classes : List String) (weights : CouplingWeights α) : List (List α) :=
  weights.entries.foldl (WeightMatrix.enter (WeightMatrix.places classes))
    (WeightMatrix.zeros classes.length)

/-! ### What a cell holds -/

/-- The value of a cell after a further weight is offered: it changes while it is zero. -/
def keepNonzero (held offered : α) : α := if held == 0 then offered else held

/-- Whether an entry of a table stores a weight between two classes. -/
def relates (a b : String) (pair : ClassPair) : Bool :=
  (pair.1 == a && pair.2 == b) || (pair.1 == b && pair.2 == a)

/-- The weight between two different classes: the first one other than zero. -/
def firstWeight (weights : CouplingWeights α) (a b : String) : α :=
  ((weights.entries.filter fun e => relates a b e.1).map Prod.snd).foldl keepNonzero 0

/-- The cell of two classes: zero when one is missing and for one and the same class. -/
def cell (weights : CouplingWeights α) (a b : Option String) : α :=
  match a, b with
  | some x, some y => if x = y then 0 else firstWeight weights x y
  | _, _ => 0

end Linkage
