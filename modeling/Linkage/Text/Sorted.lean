/-!
# Sorted text

Strings are ordered by code point, pairs of strings by their first and then their second part.
A set of strings is written as its members in increasing order, each once.
-/

namespace Linkage.Text

/-- Strings in increasing order, repeated ones kept. -/
def sorted (xs : List String) : List String := xs.mergeSort fun a b => decide (a ≤ b)

/-- The members of a list of strings, in increasing order and each once. -/
def members (xs : List String) : List String := (sorted xs).eraseReps

/-- The lexicographic order of pairs of strings. -/
def pairLe (p q : String × String) : Bool :=
  decide (p.1 < q.1) || (p.1 == q.1 && decide (p.2 ≤ q.2))

/-- Strings joined with a separator. -/
def join (separator : String) (xs : List String) : String := String.intercalate separator xs

end Linkage.Text
