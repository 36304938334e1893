/-!
# Words

Words of 64 bits as integers: without a sign they start at zero, with a sign they lie evenly
around it.
-/

namespace Linkage.Word

/-- The number of words. -/
def count : Nat := Nat.pow 2 64

/-- Half the number of words: the first integer that is a word only without a sign. -/
def half : Nat := Nat.pow 2 63

/-- Whether an integer is a word without a sign. -/
def isUnsigned (n : Int) : Bool := decide (0 ≤ n ∧ n < count)

/-- Whether an integer is a word with a sign. -/
def isSigned (n : Int) : Bool := decide (-(half : Int) ≤ n ∧ n < half)

end Linkage.Word
