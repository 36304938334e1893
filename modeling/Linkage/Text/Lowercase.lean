import Linkage.Text.CaseTable

/-!
# Lowercase text

Text in lowercase, character by character, with the two rules that look further than one
character: the capital dotted I becomes an i and a dot above, and a capital sigma becomes a
final sigma at the end of a word.
-/

namespace Linkage.Text

/-- Whether a code point lies in one of some inclusive ranges. -/
def inRanges (ranges : List (Nat × Nat)) (n : Nat) : Bool :=
  ranges.any fun r => decide (r.1 ≤ n) && decide (n ≤ r.2)

/-- Whether a character is passed over when a letter looks for its neighbours. -/
def isCaseIgnorable (c : Char) : Bool := inRanges CaseTable.ignorable c.toNat

/-- Whether a character has letter case. -/
def isCased (c : Char) : Bool := inRanges CaseTable.cased c.toNat

/-- Whether a run of letters holds a code point. -/
def CaseTable.Run.holds (r : CaseTable.Run) (n : Nat) : Bool :=
  decide (r.first ≤ n) && decide (n ≤ r.first + (r.count - 1) * r.step) &&
    (n - r.first) % r.step == 0

/-- The lowercase form of one character, without regard to its neighbours. -/
def lowerChar (c : Char) : List Char :=
  if c.toNat < 128 then [c.toLower]
  else if c = 'İ' then ['i', '\u0307']
  else
    match CaseTable.runs.find? (·.holds c.toNat) with
    | some r => [Char.ofNat ((c.toNat : Int) + r.shift).toNat]
    | none => [c]

/-- Whether the nearest character that is not passed over has letter case. -/
def nextIsCased (cs : List Char) : Bool :=
  match cs.dropWhile isCaseIgnorable with
  | [] => false
  | c :: _ => isCased c

/-- The lowercase form of a capital sigma between the characters before it, nearest first, and
those after it: final when a letter comes before and none after. -/
def lowerSigma (before after : List Char) : Char :=
  if nextIsCased before && !nextIsCased after then 'ς' else 'σ'

/-- The lowercase form of a list of characters that follows other characters, nearest first. -/
def lowerAfter (before : List Char) : List Char → List Char
  | [] => []
  | c :: rest =>
    (if c = 'Σ' then [lowerSigma before rest] else lowerChar c) ++ lowerAfter (c :: before) rest

/-- A string in lowercase. -/
def lowercase (s : String) : String := String.ofList (lowerAfter [] s.toList)

end Linkage.Text
