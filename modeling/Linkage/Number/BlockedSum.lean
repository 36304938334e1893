import Linkage.Scalar

/-!
# Blocked summation

A sum of many scalars is taken in blocks, so that rounding errors stay small: a short list is
added left to right, a list of up to 128 scalars along eight lanes, and a longer list by halves
whose first part is a whole number of lanes.
-/

namespace Linkage

variable {α : Type} [Scalar α]

/-- The sum of a list from left to right, starting from a given scalar. -/
def sumFrom (start : α) (xs : List α) : α := xs.foldl (· + ·) start

/-- Adds a row of eight scalars to eight running sums. -/
def addRow (lanes row : List α) : List α := lanes.zipWith (· + ·) row

/-- Adds the rows of a list to eight running sums, and gives the scalars that fill no row. -/
def laneSums (rows : Nat) (lanes rest : List α) : List α × List α :=
  match rows with
  | 0 => (lanes, rest)
  | n + 1 => laneSums n (addRow lanes (rest.take 8)) (rest.drop 8)

/-- Eight running sums as one, by halves. -/
def joinLanes : List α → α
  | [a, b, c, d, e, f, g, h] => ((a + b) + (c + d)) + ((e + f) + (g + h))
  | xs => sumFrom 0 xs

/-- The sum of a list of at most 128 scalars. -/
def sumBlock (xs : List α) : α :=
  if xs.length < 8 then sumFrom 0 xs
  else
    let (lanes, rest) := laneSums (xs.length / 8 - 1) (xs.take 8) (xs.drop 8)
    sumFrom (joinLanes lanes) rest

/-- The sum of a list by blocks; `fuel` bounds how often the list is halved. -/
def sumHalves : Nat → List α → α
  | 0, xs => sumBlock xs
  | fuel + 1, xs =>
    if xs.length ≤ 128 then sumBlock xs
    else
      let half := xs.length / 2 / 8 * 8
      sumHalves fuel (xs.take half) + sumHalves fuel (xs.drop half)

/-- The **blocked sum** of a list. -/
def blockedSum (xs : List α) : α := 0 + sumHalves xs.length xs

/-- The mean of a list by blocked summation. -/
def blockedMean (xs : List α) : α := blockedSum xs / ((xs.length : Nat) : α)

end Linkage
