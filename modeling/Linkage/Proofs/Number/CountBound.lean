import Mathlib
import Linkage.Number.BlockedSum
import Linkage.Proofs.Number.ExactScalar
import Linkage.Proofs.Number.Magnitude

/-!
# Bounds for sums and averages

The analysis adds up weights in several orders: from left to right, in blocks, and along the
merges of a run. Whatever the order, a sum of `n` weights is bounded by what holds of `n`, and
its average over `n` by what holds of averages. `CountBound` states what this needs of a scalar
type, up to a limit for the number of weights.

Exact numbers satisfy it without a limit: a sum of `n` shares lies between zero and `n`, and
its average is a share. In floating point a sum of `n` numbers up to `2 ^ k` is at most `n ^ 2
* 2 ^ k`.

## Main results

* `CountBound.sumFrom`, `CountBound.blockedSum`: sums from left to right and in blocks.
* `CountBound.blockedMean`: means.
* `countBound_nonneg`, `countBound_exact`, `countBound_float`: the bounds of non-negative
  scalars, of shares in exact arithmetic, and of floating point.
-/

namespace Linkage

/-- **Bounds by counts**: what `holds` of a sum of some weights, for every number of weights up
to a limit, and what is `good` for an average. -/
structure CountBound {α : Type} [Scalar α] (limit : ℕ) (holds : ℕ → α → Prop) (good : α → Prop) :
    Prop where
  /-- The empty sum. -/
  zero : holds 0 0
  /-- A bound holds of fewer weights. -/
  mono : ∀ {m n : ℕ} {x : α}, m ≤ n → holds m x → holds n x
  /-- The sum of two sums. -/
  add : ∀ {m n : ℕ} {x y : α}, m + n ≤ limit → holds m x → holds n y → holds (m + n) (x + y)
  /-- The average of a sum. -/
  div : ∀ {n : ℕ} {x : α}, 0 < n → n ≤ limit → holds n x → good (x / (n : α))
  /-- The average of nothing. -/
  good_zero : good 0

namespace CountBound

variable {α : Type} [Scalar α] {limit : ℕ} {holds : ℕ → α → Prop} {good : α → Prop}
  (h : CountBound limit holds good)

include h

/-- The bound holds of the empty sum, for any number of weights. -/
theorem holds_zero (n : ℕ) : holds n 0 := h.mono n.zero_le h.zero

/-- **A sum from left to right** of sums of `m` weights each. -/
theorem sumFrom {m n : ℕ} {xs : List α} (hxs : ∀ x ∈ xs, holds m x) {start : α}
    (hstart : holds n start)
    (hlimit : n + xs.length * m ≤ limit) : holds (n + xs.length * m) (sumFrom start xs) := by
  induction xs generalizing start n with
  | nil => simpa [Linkage.sumFrom] using hstart
  | cons x rest ih =>
      have hlength : n + (x :: rest).length * m = n + m + rest.length * m := by
        rw [List.length_cons]
        ring
      rw [hlength] at hlimit ⊢
      have hstep := h.add (by omega) hstart (hxs x List.mem_cons_self)
      exact ih (fun y hy => hxs y (List.mem_cons_of_mem x hy)) hstep hlimit

/-- Adding rows of weights to running sums. -/
theorem laneSums {m : ℕ} (rows : ℕ) :
    ∀ {n : ℕ} {lanes rest : List α}, (∀ x ∈ lanes, holds n x) → (∀ x ∈ rest, holds m x) →
      n + rows * m ≤ limit →
      (∀ x ∈ (Linkage.laneSums rows lanes rest).1, holds (n + rows * m) x) ∧
        (Linkage.laneSums rows lanes rest).1.length ≤ lanes.length ∧
        (Linkage.laneSums rows lanes rest).2 = rest.drop (rows * 8) := by
  induction rows with
  | zero =>
      intro n lanes rest hlanes _ _
      exact ⟨by simpa [Linkage.laneSums] using hlanes, le_rfl, by simp [Linkage.laneSums]⟩
  | succ rows ih =>
      intro n lanes rest hlanes hrest hlimit
      have hcount : n + (rows + 1) * m = n + m + rows * m := by ring
      rw [hcount] at hlimit ⊢
      have hadd : ∀ x ∈ addRow lanes (rest.take 8), holds (n + m) x := by
        intro x hx
        rw [addRow, ← List.map_uncurry_zip_eq_zipWith] at hx
        obtain ⟨⟨a, b⟩, hab, rfl⟩ := List.mem_map.mp hx
        obtain ⟨ha, hb⟩ := List.of_mem_zip hab
        exact h.add (by omega) (hlanes a ha) (hrest b (List.mem_of_mem_take hb))
      obtain ⟨hsums, hlength, hleft⟩ :=
        ih hadd (fun x hx => hrest x (List.mem_of_mem_drop hx)) hlimit
      refine ⟨hsums, hlength.trans ?_, ?_⟩
      · rw [addRow, List.length_zipWith]
        exact min_le_left _ _
      · rw [Linkage.laneSums, hleft, List.drop_drop, Nat.succ_mul, Nat.add_comm]

/-- Joining running sums of `m` weights each. -/
theorem joinLanes {m : ℕ} {lanes : List α} (hlanes : ∀ x ∈ lanes, holds m x)
    (hlimit : lanes.length * m ≤ limit) : holds (lanes.length * m) (joinLanes lanes) := by
  unfold Linkage.joinLanes
  split
  · next a b c d e f g i =>
    simp only [List.mem_cons, List.not_mem_nil, or_false, forall_eq_or_imp, forall_eq] at hlanes
    simp only [List.length_cons, List.length_nil] at hlimit ⊢
    obtain ⟨ha, hb, hc, hd, he, hf, hg, hi⟩ := hlanes
    have hleft := h.add (by omega) (h.add (by omega) ha hb) (h.add (by omega) hc hd)
    have hright := h.add (by omega) (h.add (by omega) he hf) (h.add (by omega) hg hi)
    exact h.mono (by omega) (h.add (by omega) hleft hright)
  · simpa using h.sumFrom hlanes h.zero (by simpa using hlimit)

/-- The bound holds of the sum of a block. -/
theorem sumBlock {m : ℕ} {xs : List α} (hxs : ∀ x ∈ xs, holds m x)
    (hlimit : xs.length * m ≤ limit) : holds (xs.length * m) (sumBlock xs) := by
  unfold Linkage.sumBlock
  split
  · simpa using h.sumFrom hxs h.zero (by simpa using hlimit)
  · next hlong =>
    obtain ⟨rows, hrows⟩ : ∃ rows, xs.length / 8 = rows + 1 := ⟨xs.length / 8 - 1, by omega⟩
    -- The lanes hold eight scalars more than the rows added, and what is left completes the
    -- list.
    have hsplit : 8 * (m + rows * m) + (xs.length - (8 + rows * 8)) * m = xs.length * m := by
      have hlength : xs.length = 8 + rows * 8 + (xs.length - (8 + rows * 8)) := by omega
      calc 8 * (m + rows * m) + (xs.length - (8 + rows * 8)) * m =
          (8 + rows * 8 + (xs.length - (8 + rows * 8))) * m := by ring
        _ = xs.length * m := by rw [← hlength]
    have hfirst : ∀ x ∈ xs.take 8, holds m x := fun x hx => hxs x (List.mem_of_mem_take hx)
    have hafter : ∀ x ∈ xs.drop 8, holds m x := fun x hx => hxs x (List.mem_of_mem_drop hx)
    have hlanes := h.laneSums rows hfirst hafter (by omega)
    rw [hrows, Nat.add_sub_cancel]
    rcases hrun : Linkage.laneSums rows (xs.take 8) (xs.drop 8) with ⟨lanes, rest⟩
    rw [hrun, List.drop_drop] at hlanes
    obtain ⟨hsums, hlength, hrest⟩ := hlanes
    simp only at hsums hlength hrest ⊢
    have height : lanes.length * (m + rows * m) ≤ 8 * (m + rows * m) :=
      Nat.mul_le_mul_right _ (hlength.trans (List.length_take_le 8 xs))
    have hjoined := h.mono height (h.joinLanes hsums (by omega))
    have hleft : ∀ x ∈ rest, holds m x := by
      rw [hrest]
      exact fun x hx => hxs x (List.mem_of_mem_drop hx)
    rw [← hsplit, ← List.length_drop, ← hrest] at hlimit ⊢
    exact h.sumFrom hleft hjoined hlimit

/-- The bound holds of a sum by halves. -/
theorem sumHalves {m : ℕ} (fuel : ℕ) : ∀ {xs : List α}, (∀ x ∈ xs, holds m x) →
    xs.length * m ≤ limit → holds (xs.length * m) (sumHalves fuel xs) := by
  induction fuel with
  | zero => exact fun hxs hlimit => h.sumBlock hxs hlimit
  | succ fuel ih =>
      intro xs hxs hlimit
      unfold Linkage.sumHalves
      split
      · exact h.sumBlock hxs hlimit
      · simp only
        generalize xs.length / 2 / 8 * 8 = half
        have hsplit : (xs.take half).length * m + (xs.drop half).length * m = xs.length * m := by
          rw [← Nat.add_mul, ← List.length_append, List.take_append_drop]
        have hleft := ih (fun x hx => hxs x (List.mem_of_mem_take hx))
          (by omega : (xs.take half).length * m ≤ limit)
        have hright := ih (fun x hx => hxs x (List.mem_of_mem_drop hx))
          (by omega : (xs.drop half).length * m ≤ limit)
        rw [← hsplit] at hlimit ⊢
        exact h.add hlimit hleft hright

/-- **A mean by blocks** of some weights. -/
theorem blockedMean {xs : List α} (hxs : ∀ x ∈ xs, holds 1 x) (hne : xs ≠ [])
    (hlimit : xs.length ≤ limit) : good (blockedMean xs) := by
  have hsum := h.sumHalves xs.length hxs (by rwa [Nat.mul_one])
  rw [Nat.mul_one] at hsum
  have htotal := h.add (by rwa [Nat.zero_add]) h.zero hsum
  rw [Nat.zero_add] at htotal
  exact h.div (List.length_pos_iff.mpr hne) hlimit htotal

end CountBound

/-! ### The bounds of exact numbers -/

/-- **A sum of non-negative scalars** is not negative, and neither is its average. -/
theorem countBound_nonneg {α : Type} [Scalar α] [OrderedScalar α] (limit : ℕ) :
    CountBound limit (fun _ (x : α) => 0 ≤ x) (0 ≤ ·) where
  zero := PreorderedScalar.zero_nonneg
  mono _ hx := hx
  add _ hx hy := OrderedScalar.add_nonneg hx hy
  div hn _ hx := OrderedScalar.div_natCast_nonneg hx hn
  good_zero := PreorderedScalar.zero_nonneg

/-- **In exact arithmetic** a sum of `n` shares lies between zero and `n`, and its average is a
share. -/
theorem countBound_exact {α : Type} [Scalar α] [ExactScalar α] (limit : ℕ) :
    CountBound limit (fun n (x : α) => 0 ≤ x ∧ x ≤ (n : α)) IsShare where
  zero := ⟨PreorderedScalar.zero_nonneg, natCast_nonneg 0⟩
  mono hmn hx := ⟨hx.1, PreorderedScalar.le_trans hx.2 (ExactScalar.natCast_le hmn)⟩
  add _ hx hy := ⟨OrderedScalar.add_nonneg hx.1 hy.1, ExactScalar.add_le_natCast hx.2 hy.2⟩
  div hn _ hx := isShare_div hx.1 hx.2 hn
  good_zero := isShare_zero

/-! ### The bounds of floating point -/

/-- **In floating point** a sum of `n` numbers up to `2 ^ k` is at most `n ^ 2 * 2 ^ k`, and an
average of up to `2 ^ j` numbers is at most `2 ^ (j + k + 2)`. -/
theorem countBound_float {j k : ℕ} (hjk : 2 * j + k < 1022) {limit : ℕ} (hlimit : limit ≤ 2 ^ j) :
    CountBound limit (fun n => UpTo ((n : ℚ) ^ 2 * 2 ^ k)) (UpTo (2 ^ (j + k + 2))) := by
  have hpos : (0 : ℚ) ≤ 2 ^ k := by positivity
  have hgood : (0 : ℚ) ≤ 2 ^ (j + k + 2) := by positivity
  have hcount : ∀ {n : ℕ}, n ≤ limit → (n : ℚ) ≤ 2 ^ j :=
    fun hn => by exact_mod_cast hn.trans hlimit
  have hlt : ∀ {i : ℕ}, i < 1023 → (2 : ℚ) ^ i < 2 ^ 1023 :=
    fun hi => pow_lt_pow_right₀ one_lt_two hi
  refine ⟨.zero (mul_nonneg (sq_nonneg _) hpos), fun {m n x} hmn hx => hx.mono ?_,
    fun {m n x y} hmn hx hy => ?_, fun {n x} hn hle hx => ?_, .zero hgood⟩
  · have hmn' : (m : ℚ) ≤ n := by exact_mod_cast hmn
    exact mul_le_mul_of_nonneg_right (pow_le_pow_left₀ m.cast_nonneg hmn' 2) hpos
  · refine UpTo.add hpos hx hy (lt_of_le_of_lt ?_ (hlt (by omega : 2 * j + k < 1023)))
    rw [pow_add, mul_comm 2 j, pow_mul]
    exact mul_le_mul_of_nonneg_right (pow_le_pow_left₀ (Nat.cast_nonneg _) (hcount hmn) 2) hpos
  · -- the average of `n` numbers is at most `n` times as large as each of them
    have hsum : (n : ℚ) ^ 2 * 2 ^ k ≤ n * 2 ^ (j + k) := by
      rw [sq, mul_assoc, pow_add]
      exact mul_le_mul_of_nonneg_left (mul_le_mul_of_nonneg_right (hcount hle) hpos) n.cast_nonneg
    rw [pow_succ', pow_succ']
    refine (hx.mono hsum).div_natCast (by positivity) ?_ hn ((hcount hle).trans_lt (hlt (by omega)))
    rw [← pow_succ']
    exact hlt (by omega)

end Linkage
