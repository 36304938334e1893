import Mathlib
import Linkage.Number.BlockedSum

/-!
# Blocked sums of rational numbers

The order in which a blocked sum adds does not matter when addition is exact: over the rational
numbers it is the plain sum, and the blocked mean is the arithmetic mean.

## Main results

* `blockedSum_eq_sum`: a blocked sum of rational numbers is their sum.
* `blockedMean_eq`: a blocked mean of rational numbers is their sum over their number.
-/

namespace Linkage

/-- A running sum is the start and the sum. -/
theorem sumFrom_eq (start : ℚ) (xs : List ℚ) : sumFrom start xs = start + xs.sum := by
  induction xs generalizing start with
  | nil => simp [sumFrom]
  | cons x rest ih =>
      have hstep : sumFrom start (x :: rest) = sumFrom (start + x) rest := rfl
      rw [hstep, ih, List.sum_cons, add_assoc]

/-- Adding a row to running sums adds their totals. -/
theorem sum_addRow {lanes row : List ℚ} (h : lanes.length = row.length) :
    (addRow lanes row).sum = lanes.sum + row.sum := by
  induction lanes generalizing row with
  | nil =>
      obtain rfl : row = [] := List.length_eq_zero_iff.mp h.symm
      simp [addRow]
  | cons x lanes ih =>
      match row, h with
      | y :: row, h =>
          have hrest := ih (Nat.succ.inj h)
          have hcons : addRow (x :: lanes) (y :: row) = (x + y) :: addRow lanes row := rfl
          rw [hcons, List.sum_cons, List.sum_cons, List.sum_cons, hrest]
          ring

/-- Running sums and what fills no row keep the total, and there are still eight of them. -/
theorem laneSums_total (rows : Nat) :
    ∀ lanes rest : List ℚ, lanes.length = 8 → rows * 8 ≤ rest.length →
      (laneSums rows lanes rest).1.length = 8 ∧
        (laneSums rows lanes rest).1.sum + (laneSums rows lanes rest).2.sum =
          lanes.sum + rest.sum := by
  induction rows with
  | zero => exact fun lanes rest hlanes _ => ⟨hlanes, rfl⟩
  | succ rows ih =>
      intro lanes rest hlanes hrest
      have htake : (rest.take 8).length = 8 := by
        rw [List.length_take]
        omega
      have hadd : (addRow lanes (rest.take 8)).length = 8 := by
        rw [addRow, List.length_zipWith]
        omega
      have hdrop : rows * 8 ≤ (rest.drop 8).length := by
        rw [List.length_drop]
        omega
      obtain ⟨hlen, htotal⟩ := ih (addRow lanes (rest.take 8)) (rest.drop 8) hadd hdrop
      refine ⟨hlen, htotal.trans ?_⟩
      rw [sum_addRow (hlanes.trans htake.symm), add_assoc, List.sum_take_add_sum_drop]

/-- The lanes are joined to their sum. -/
theorem joinLanes_eq_sum (lanes : List ℚ) : joinLanes lanes = lanes.sum := by
  unfold joinLanes
  split
  · simp only [List.sum_cons, List.sum_nil]
    ring
  · rw [sumFrom_eq]
    exact zero_add _

/-- A block is summed exactly. -/
theorem sumBlock_eq_sum (xs : List ℚ) : sumBlock xs = xs.sum := by
  unfold sumBlock
  split
  · rw [sumFrom_eq]
    exact zero_add _
  · next h =>
    have hlen : 8 ≤ xs.length := not_lt.mp h
    have htotal := (laneSums_total (xs.length / 8 - 1) (xs.take 8) (xs.drop 8)
      (by rw [List.length_take]; omega) (by rw [List.length_drop]; omega)).2
    simp only [sumFrom_eq, joinLanes_eq_sum]
    rw [htotal, List.sum_take_add_sum_drop]

/-- Halves that are summed apart add up to the sum. -/
theorem sumHalves_eq_sum (fuel : Nat) (xs : List ℚ) : sumHalves fuel xs = xs.sum := by
  induction fuel generalizing xs with
  | zero => exact sumBlock_eq_sum xs
  | succ fuel ih =>
      unfold sumHalves
      split
      · exact sumBlock_eq_sum xs
      · simp only [ih]
        exact List.sum_take_add_sum_drop ..

/-- **A blocked sum of rational numbers is their sum.** -/
theorem blockedSum_eq_sum (xs : List ℚ) : blockedSum xs = xs.sum := by
  rw [blockedSum, sumHalves_eq_sum]
  exact zero_add _

/-- A blocked mean of rational numbers is their arithmetic mean. -/
theorem blockedMean_eq (xs : List ℚ) : blockedMean xs = xs.sum / (xs.length : ℚ) := by
  rw [blockedMean, blockedSum_eq_sum]

end Linkage
