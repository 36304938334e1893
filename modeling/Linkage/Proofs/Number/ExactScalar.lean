import Mathlib
import Linkage.Proofs.Number.OrderedScalar

/-!
# Laws of exact numbers

What an argument about shares needs of a scalar type beside the laws of order: the natural
numbers are scalars in their order, a sum of two scalars does not exceed the sum of their
bounds, and a part of a scalar is at most one when the scalar is at most the number of its
parts. The rational numbers satisfy these laws, and so do the extended ones. Binary floating
point does not: its sums round.

A *share* is a scalar from zero to one.

## Main results

* `isShare_div`: a part of a bounded scalar is a share.
* `IsShare.isUndefined`: a share is not undefined.
-/

namespace Linkage

/-- The **laws of exact numbers**. -/
class ExactScalar (α : Type) [Scalar α] : Prop extends OrderedScalar α, TotalScalar α where
  /-- Zero equals itself. -/
  zero_beq_zero : ((0 : α) == 0) = true
  /-- Scalars that are compared are not undefined. -/
  defined_of_le : ∀ {a b : α}, a ≤ b → a ≤ a ∧ b ≤ b
  /-- Zero is a natural number. -/
  natCast_zero : ((0 : ℕ) : α) = 0
  /-- Natural numbers keep their order. -/
  natCast_le : ∀ {m n : ℕ}, m ≤ n → (m : α) ≤ (n : α)
  /-- Natural numbers are in range. -/
  ofInt?_natCast : ∀ n : ℕ, Scalar.ofInt? (n : ℤ) = some (n : α)
  /-- A sum does not exceed the sum of two bounds. -/
  add_le_natCast : ∀ {a b : α} {m n : ℕ}, a ≤ (m : α) → b ≤ (n : α) → a + b ≤ ((m + n : ℕ) : α)
  /-- A part of a scalar that does not exceed the number of parts is at most one. -/
  div_natCast_le_one : ∀ {a : α} {n : ℕ}, a ≤ (n : α) → 0 < n → a / (n : α) ≤ ((1 : ℕ) : α)

instance : ExactScalar ℚ where
  zero_beq_zero := rfl
  defined_of_le _ := ⟨Rat.le_refl, Rat.le_refl⟩
  natCast_zero := rfl
  natCast_le h := (Nat.cast_le (α := ℚ)).mpr h
  ofInt?_natCast _ := rfl
  add_le_natCast {a b m n} ha hb := by
    have h : a + b ≤ ((m + n : ℕ) : ℚ) := by
      rw [Nat.cast_add]
      exact add_le_add ha hb
    exact h
  div_natCast_le_one {a n} ha hn := by
    have h : a / (n : ℚ) ≤ ((1 : ℕ) : ℚ) := by
      rw [Nat.cast_one, div_le_one (Nat.cast_pos.mpr hn)]
      exact ha
    exact h

namespace Extended

/-- A number is at most a natural number when it is a rational number that is, or unbounded
below. -/
theorem le_natCast_iff {a : Extended} {n : ℕ} :
    a ≤ (n : Extended) ↔ (∃ q : ℚ, q ≤ n ∧ a = finite q) ∨ a = unbounded true := by
  have hcast : (n : Extended) = finite n := rfl
  rw [le_iff, hcast]
  cases a with
  | finite q => simp [atMost]
  | unbounded s => cases s <;> simp [atMost]
  | undefined => simp [atMost]

instance : ExactScalar Extended where
  zero_beq_zero := rfl
  defined_of_le {a b} h := by
    rw [le_iff] at h
    rcases a with p | (_ | _) | _ <;> rcases b with q | (_ | _) | _ <;> simp_all [le_iff, atMost]
  natCast_zero := rfl
  natCast_le {m n} h := le_natCast_iff.mpr (.inl ⟨m, Nat.cast_le.mpr h, rfl⟩)
  ofInt?_natCast _ := rfl
  add_le_natCast {a b m n} ha hb := by
    rw [le_natCast_iff] at ha hb ⊢
    have hadd : a + b = add a b := rfl
    rcases ha with ⟨p, hp, rfl⟩ | rfl <;> rcases hb with ⟨q, hq, rfl⟩ | rfl
    · exact .inl ⟨p + q, by rw [Nat.cast_add]; exact add_le_add hp hq, hadd⟩
    · exact .inr hadd
    · exact .inr hadd
    · exact .inr hadd
  div_natCast_le_one {a n} ha hn := by
    rw [le_natCast_iff] at ha ⊢
    have hdiv : a / (n : Extended) = div a (finite n) := rfl
    have hpos : (0 : ℚ) < n := Nat.cast_pos.mpr hn
    rcases ha with ⟨p, hp, rfl⟩ | rfl
    · refine .inl ⟨p / n, ?_, by rw [hdiv, div, if_neg hpos.ne']⟩
      rw [Nat.cast_one]
      exact (div_le_one hpos).mpr hp
    · exact .inr (by rw [hdiv, div, scale, if_neg hpos.ne']; simp [hpos.le])

end Extended

/-- A **share** is a scalar from zero to one. -/
def IsShare {α : Type} [Scalar α] (x : α) : Prop := 0 ≤ x ∧ x ≤ ((1 : ℕ) : α)

section

variable {α : Type} [Scalar α] [ExactScalar α]

/-- No natural number is below zero. -/
theorem natCast_nonneg (n : ℕ) : (0 : α) ≤ (n : α) := by
  have h : ((0 : ℕ) : α) ≤ (n : α) := ExactScalar.natCast_le n.zero_le
  rwa [ExactScalar.natCast_zero] at h

/-- Zero is a share. -/
theorem isShare_zero : IsShare (0 : α) := ⟨PreorderedScalar.zero_nonneg, natCast_nonneg 1⟩

/-- **A part of a bounded scalar is a share.** -/
theorem isShare_div {x : α} {n : ℕ} (h : 0 ≤ x) (hx : x ≤ (n : α)) (hn : 0 < n) :
    IsShare (x / (n : α)) :=
  ⟨OrderedScalar.div_natCast_nonneg h hn, ExactScalar.div_natCast_le_one hx hn⟩

namespace IsShare

variable {x : α} (h : IsShare x)

include h

/-- A share is not undefined. -/
theorem isUndefined : Scalar.isUndefined x = false := by
  simp [Scalar.isUndefined, (ExactScalar.defined_of_le h.1).2]

/-- A share is not below zero. -/
theorem not_lt_zero : ¬ x < 0 := fun hlt =>
  (TotalScalar.not_le_iff_lt PreorderedScalar.zero_nonneg (ExactScalar.defined_of_le h.1).2).mpr
    hlt h.1

/-- A share is not above one. -/
theorem not_one_lt : ¬ ((1 : ℕ) : α) < x := fun hlt =>
  (TotalScalar.not_le_iff_lt (ExactScalar.defined_of_le h.2).1
    (ExactScalar.defined_of_le h.2).2).mpr hlt h.2

end IsShare

end

end Linkage
