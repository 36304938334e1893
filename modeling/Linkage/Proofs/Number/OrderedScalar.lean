import Mathlib
import Linkage.Number.Extended

/-!
# Laws of order

What an argument about thresholds needs of a scalar type is that its order is transitive. The
rational numbers satisfy this, the extended ones, whose undefined value is not at most itself,
and floating point numbers. Up to undefined values these orders are total.

That sums and means of non-negative scalars are not negative is a law of exact numbers. In
floating point it has a limit: a number of weights that is itself too large is unbounded, and
the quotient of two unbounded values is undefined.

## Main results

* `PreorderedScalar`, `OrderedScalar`: the laws of order, without and with those of arithmetic.
* `le_iff_not_lt`: the order of defined scalars is total.
-/

namespace Linkage

/-- The **laws of comparison** of a scalar type. -/
class PreorderedScalar (α : Type) [Scalar α] : Prop where
  /-- Zero is not negative. -/
  zero_nonneg : (0 : α) ≤ 0
  /-- The order is transitive. -/
  le_trans : ∀ {a b c : α}, a ≤ b → b ≤ c → a ≤ c

/-- The **laws of order** of a scalar type, with those of sums and means. -/
class OrderedScalar (α : Type) [Scalar α] : Prop extends PreorderedScalar α where
  /-- A sum of non-negative scalars is not negative. -/
  add_nonneg : ∀ {a b : α}, 0 ≤ a → 0 ≤ b → 0 ≤ a + b
  /-- A part of a non-negative scalar is not negative. -/
  div_natCast_nonneg : ∀ {a : α} {n : Nat}, 0 ≤ a → 0 < n → 0 ≤ a / (n : α)

instance : OrderedScalar ℚ where
  zero_nonneg := le_refl (0 : ℚ)
  le_trans hab hbc := Rat.le_trans hab hbc
  add_nonneg ha hb := Rat.add_nonneg ha hb
  div_natCast_nonneg {a n} ha _ := by
    have h : (0 : ℚ) ≤ a / (n : ℚ) := div_nonneg ha n.cast_nonneg
    exact h

/-- The order of a scalar type is **total** up to undefined scalars: of two scalars that
compare with themselves, one is at most the other or greater. -/
class TotalScalar (α : Type) [Scalar α] : Prop where
  /-- What is not at most a scalar is greater. -/
  not_le_iff_lt : ∀ {a b : α}, a ≤ a → b ≤ b → (¬ a ≤ b ↔ b < a)

instance : TotalScalar ℚ where
  not_le_iff_lt _ _ := Rat.not_le

/-- Of two defined scalars the first is at most the second unless the second is less. -/
theorem le_iff_not_lt {α : Type} [Scalar α] [TotalScalar α] {a b : α}
    (ha : Scalar.isUndefined a = false) (hb : Scalar.isUndefined b = false) : a ≤ b ↔ ¬ b < a := by
  simp only [Scalar.isUndefined, Bool.not_eq_false', decide_eq_true_eq] at ha hb
  exact iff_not_comm.mp (TotalScalar.not_le_iff_lt ha hb).symm

namespace Extended

/-- The order of extended numbers is decided by `atMost`. -/
theorem le_iff {a b : Extended} : a ≤ b ↔ a.atMost b = true := Iff.rfl

/-- A number is not negative when it is a non-negative rational number or unbounded above. -/
theorem zero_le_iff {a : Extended} :
    0 ≤ a ↔ (∃ q : ℚ, 0 ≤ q ∧ a = finite q) ∨ a = unbounded false := by
  rw [le_iff]
  cases a with
  | finite q =>
      have h : atMost 0 (finite q) = decide ((0 : ℚ) ≤ q) := rfl
      simp [h]
  | unbounded s => cases s <;> simp [atMost]
  | undefined => simp [atMost]

/-- Of three numbers in order the first is at most the last. -/
theorem atMost_trans {a b c : Extended} (hab : a.atMost b = true) (hbc : b.atMost c = true) :
    a.atMost c = true := by
  rcases a with p | (_ | _) | _ <;> rcases b with q | (_ | _) | _ <;>
    rcases c with r | (_ | _) | _ <;> simp_all [atMost]
  exact le_trans hab hbc

instance : OrderedScalar Extended where
  zero_nonneg := rfl
  le_trans hab hbc := atMost_trans hab hbc
  add_nonneg {a b} ha hb := by
    rw [zero_le_iff] at ha hb ⊢
    have hadd : a + b = add a b := rfl
    rcases ha with ⟨p, hp, rfl⟩ | rfl <;> rcases hb with ⟨q, hq, rfl⟩ | rfl
    · exact .inl ⟨p + q, add_nonneg hp hq, hadd⟩
    · exact .inr hadd
    · exact .inr hadd
    · exact .inr hadd
  div_natCast_nonneg {a n} ha hn := by
    rw [zero_le_iff] at ha ⊢
    have hdiv : a / (n : Extended) = div a (finite n) := rfl
    have hn' : (n : ℚ) ≠ 0 := Nat.cast_ne_zero.mpr (by omega)
    have hpos : ¬ (n : ℚ) < 0 := not_lt.mpr n.cast_nonneg
    rcases ha with ⟨p, hp, rfl⟩ | rfl
    · exact .inl ⟨p / n, div_nonneg hp n.cast_nonneg, by rw [hdiv, div, if_neg hn']⟩
    · exact .inr (by rw [hdiv, div, scale, if_neg hn']; simp)

/-- A number is less than another when it is at most that one, and not the other way around. -/
theorem lt_iff {a b : Extended} : a < b ↔ a.atMost b = true ∧ b.atMost a = false := by
  have hlt : a < b ↔ (a.atMost b && !a.same b) = true := Iff.rfl
  rw [hlt, same]
  cases a.atMost b <;> simp

/-- Numbers that are not undefined compare. -/
theorem atMost_total {a b : Extended} (ha : a.atMost a = true) (hb : b.atMost b = true) :
    a.atMost b = true ∨ b.atMost a = true := by
  rcases a with p | (_ | _) | _ <;> rcases b with q | (_ | _) | _ <;> simp_all [atMost]
  exact le_total p q

instance : TotalScalar Extended where
  not_le_iff_lt {a b} ha hb := by
    rw [le_iff, lt_iff, Bool.not_eq_true]
    exact ⟨fun h => ⟨(atMost_total ha hb).resolve_left (by simp [h]), h⟩, fun h => h.2⟩

end Extended

end Linkage
