import Linkage.BisectionSort
import Linkage.Number.BlockedSum

/-!
# Summaries of series

A series of scalars is summarised by its count, its mean, its variance and some quantiles.
Undefined scalars are left out first, and nothing but the count is known of an empty series.

The mean and the variance are taken with blocked sums. A quantile lies between two neighbours
of the sorted series; it is computed from the nearer one.
-/

namespace Linkage

variable {α : Type} [Scalar α]

/-- The **summary of a series**. -/
structure SeriesSummary (α : Type) where
  /-- The number of defined scalars. -/
  count : Nat
  /-- The mean, unless the series is empty. -/
  mean : Option α
  /-- The mean square distance from the mean, unless the series is empty. -/
  variance : Option α
  /-- The quantiles by increasing probability, each unless the series is empty. -/
  quantiles : List (α × Option α)

namespace Series

/-- The probabilities unless others are asked for. -/
def standardProbabilities : List α := [0, Scalar.ofDecimal 5 1, ((1 : Nat) : α)]

/-- The first of every group of equal scalars. -/
def firstOfEqual : List α → List α → List α
  | held, [] => held
  | held, x :: rest =>
    if held.any (· == x) then firstOfEqual held rest else firstOfEqual (held ++ [x]) rest

/-- Scalars in increasing order. -/
def increasing (xs : List α) : List α := xs.mergeSort fun a b => !decide (b < a)

/-- Different probabilities in increasing order, as far as they have one. -/
def probabilities (qs : List α) : List α :=
  BisectionSort.sort (fun a b => decide (a < b)) (firstOfEqual [] qs)

/-- Whether a scalar is a probability. -/
def isProbability (q : α) : Bool := decide ((0 : α) ≤ q) && decide (q ≤ ((1 : Nat) : α))

/-- The mean of a list. -/
def mean (xs : List α) : α := blockedMean xs

/-- The mean square distance from the mean. -/
def variance (xs : List α) : α :=
  let m := mean xs
  blockedMean (xs.map fun x => (m - x) * (m - x))

/-- The point at a share of the way from one scalar to another. -/
def between (a b share : α) : α :=
  if Scalar.ofDecimal 5 1 ≤ share then b - (b - a) * (((1 : Nat) : α) - share)
  else a + (b - a) * share

/-- The quantile of a sorted list that is not empty. At or beyond the last place it lies
between the last scalar and itself, which makes an infinite one undefined. -/
def quantile (sorted : List α) (q : α) : α :=
  let last := sorted.length - 1
  let place := (last : α) * q
  if (last : α) ≤ place then
    let x := sorted.getD last 0
    between x x (place + ((1 : Nat) : α))
  else
    let i := Scalar.floorNat place
    between (sorted.getD i 0) (sorted.getD (i + 1) 0) (place - (i : α))

/-- The summary of a series, or a scalar that is no probability. -/
def summarise (values qs : List α) : Except α (SeriesSummary α) :=
  let ps := probabilities qs
  match ps.find? fun q => !isProbability q with
  | some q => .error q
  | none =>
    let xs := values.filter fun x => !Scalar.isUndefined x
    if xs.isEmpty then .ok ⟨0, none, none, ps.map fun q => (q, none)⟩
    else
      let sorted := increasing xs
      .ok ⟨xs.length, some (mean xs), some (variance xs),
        ps.map fun q => (q, some (quantile sorted q))⟩

/-- The number of places at which a series rises. -/
def rises : List α → Nat
  | x :: y :: rest => (if (0 : α) < y - x then 1 else 0) + rises (y :: rest)
  | _ => 0

end Series

end Linkage
