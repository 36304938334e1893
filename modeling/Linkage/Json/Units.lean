import Linkage.Text.Blank

/-!
# Units of sixteen bits

A text in a document may name a character by its number in sixteen bits. A character beyond
those is named by two numbers, a leading and a trailing one. A number of either kind that
stands alone names no character and is read as the replacement character.

## Main results

* `joined_of_forall_isValidChar`: numbers that name characters are read one by one.
-/

namespace Linkage.Json

/-- The value of a hexadecimal digit. -/
def hexDigit? (c : Char) : Option Nat :=
  if '0' ≤ c ∧ c ≤ '9' then some (c.toNat - 48)
  else if 'a' ≤ c ∧ c ≤ 'f' then some (c.toNat - 87)
  else if 'A' ≤ c ∧ c ≤ 'F' then some (c.toNat - 55)
  else none

/-- The value of four hexadecimal digits. -/
def hexUnit? (a b c d : Char) : Option Nat := do
  return ((((← hexDigit? a) * 16 + (← hexDigit? b)) * 16 + (← hexDigit? c)) * 16 + (← hexDigit? d))

/-- Whether a number leads a pair. -/
def isLeading (n : Nat) : Bool := decide (0xD800 ≤ n) && decide (n < 0xDC00)

/-- Whether a number trails a pair. -/
def isTrailing (n : Nat) : Bool := decide (0xDC00 ≤ n) && decide (n < 0xE000)

/-- The character of a number that is no part of a pair. -/
def loneChar (n : Nat) : Char :=
  if isLeading n || isTrailing n then Char.ofNat 0xFFFD else Char.ofNat n

/-- The characters of a row of numbers, pairs joined. -/
def joined : List Nat → List Char
  | [] => []
  | [n] => [loneChar n]
  | m :: n :: rest =>
    if isLeading m && isTrailing n then
      Char.ofNat (0x10000 + (m - 0xD800) * 1024 + (n - 0xDC00)) :: joined rest
    else loneChar m :: joined (n :: rest)

/-- Characters that are numbered one by one are joined to themselves. -/
theorem joined_of_forall_isValidChar (cs : List Char) : joined (cs.map Char.toNat) = cs := by
  have lone : ∀ c : Char, isLeading c.toNat = false ∧ isTrailing c.toNat = false := by
    intro c
    have h := c.valid
    simp only [UInt32.isValidChar, Nat.isValidChar] at h
    have e : c.val.toNat = c.toNat := rfl
    rw [e] at h
    simp only [isLeading, isTrailing, Bool.and_eq_false_iff, decide_eq_false_iff_not]
    omega
  have single : ∀ c : Char, loneChar c.toNat = c := by
    intro c
    simp [loneChar, (lone c).1, (lone c).2]
  match cs with
  | [] => rfl
  | [c] => simp [joined, single]
  | c :: d :: rest =>
    have ih := joined_of_forall_isValidChar (d :: rest)
    simp only [List.map_cons] at ih ⊢
    rw [joined]
    simp [(lone c).1, single, ih]

end Linkage.Json
