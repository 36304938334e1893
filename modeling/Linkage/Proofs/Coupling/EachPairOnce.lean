import Mathlib
import Linkage.Clustering.WeightMatrix
import Linkage.Proofs.Lookup

/-!
# Tables that hold each pair once

A table of weights is keyed by ordered pairs but read as a symmetric relation. When no two
classes are a key in both directions, there is one weight to read, and the ways of reading it
agree: the look-up in either direction, and the first weight other than zero.

## Main results

* `couplingBetween_of_mem`: the weight of an entry is read in both directions.
* `firstWeight_eq_couplingBetween`: the first weight other than zero is what a look-up finds.
-/

namespace Linkage

/-- A table holds **each pair once** when no two different classes are a key in both
directions. -/
def EachPairOnce {ν : Type} (table : OrderedMap ClassPair ν) : Prop :=
  ∀ a b, a ≠ b → (a, b) ∈ table.keys → (b, a) ∉ table.keys

instance {ν : Type} (table : OrderedMap ClassPair ν) : Decidable (EachPairOnce table) :=
  decidable_of_iff (∀ p ∈ table.keys, p.1 ≠ p.2 → (p.2, p.1) ∉ table.keys)
    ⟨fun h a b hne hab => h (a, b) hab hne, fun h p hp hne => h p.1 p.2 hne hp⟩

/-- A table of pairs in increasing order holds each pair once. -/
theorem eachPairOnce_of_lt {ν : Type} {table : OrderedMap ClassPair ν}
    (h : ∀ a b, (a, b) ∈ table.keys → a < b) : EachPairOnce table :=
  fun a b _ hab hba => lt_asymm (h a b hab) (h b a hba)

/-- The pair of an entry is a key. -/
theorem mem_keys_of_mem {ν : Type} {table : OrderedMap ClassPair ν} {pair : ClassPair} {x : ν}
    (h : (pair, x) ∈ table.entries) : pair ∈ table.keys :=
  List.mem_map.mpr ⟨_, h, rfl⟩

/-- Nothing is stored for a pair that is no key. -/
theorem get?_eq_none_of_not_mem {ν : Type} {table : OrderedMap ClassPair ν} {pair : ClassPair}
    (h : pair ∉ table.keys) : table.get? pair = none := by
  rw [← Option.not_isSome_iff_eq_none, OrderedMap.isSome_get?_iff]
  exact h

section

variable {α : Type} {weights : CouplingWeights α} {a b : String} {x : α}

/-- Two classes are a key in one of the directions or in neither. -/
theorem exists_mem_or_not_mem_keys (weights : CouplingWeights α) (a b : String) :
    (∃ x, ((a, b), x) ∈ weights.entries) ∨ (∃ x, ((b, a), x) ∈ weights.entries) ∨
      (a, b) ∉ weights.keys ∧ (b, a) ∉ weights.keys := by
  have hkey : ∀ pair : ClassPair, pair ∈ weights.keys → ∃ x, (pair, x) ∈ weights.entries := by
    intro pair hpair
    obtain ⟨⟨_, x⟩, hx, rfl⟩ := List.mem_map.mp hpair
    exact ⟨x, hx⟩
  by_cases hab : (a, b) ∈ weights.keys
  · exact .inl (hkey _ hab)
  · by_cases hba : (b, a) ∈ weights.keys
    · exact .inr (.inl (hkey _ hba))
    · exact .inr (.inr ⟨hab, hba⟩)

/-- A pair relates two classes in one of their two orders. -/
theorem relates_iff {pair : ClassPair} :
    relates a b pair = true ↔ pair = (a, b) ∨ pair = (b, a) := by
  simp [relates, Prod.ext_iff]

/-- One entry relates the two classes of a key. -/
theorem filter_relates_of_mem (h : EachPairOnce weights) (hne : a ≠ b)
    (hx : ((a, b), x) ∈ weights.entries) :
    (weights.entries.filter fun e => relates a b e.1) = [((a, b), x)] := by
  refine List.perm_singleton.mp ((List.perm_ext_iff_of_nodup ?_ (List.nodup_singleton _)).mpr ?_)
  · exact (List.Nodup.of_map _ weights.distinct).filter _
  · rintro ⟨pair, y⟩
    rw [List.mem_filter, relates_iff, List.mem_singleton]
    constructor
    · rintro ⟨hy, rfl | rfl⟩
      · have hboth := (OrderedMap.get?_eq_some_iff.mpr hy).symm.trans
          (OrderedMap.get?_eq_some_iff.mpr hx)
        rw [Option.some.inj hboth]
      · exact absurd (mem_keys_of_mem hy) (h a b hne (mem_keys_of_mem hx))
    · rintro ⟨⟩
      exact ⟨hx, .inl rfl⟩

/-- No entry relates two classes that are no key in either direction. -/
theorem filter_relates_of_not_mem (hab : (a, b) ∉ weights.keys) (hba : (b, a) ∉ weights.keys) :
    (weights.entries.filter fun e => relates a b e.1) = [] := by
  rw [List.filter_eq_nil_iff]
  intro e he hrelates
  have hkey : e.1 ∈ weights.keys := mem_keys_of_mem he
  rcases relates_iff.mp hrelates with hpair | hpair
  · exact hab (hpair ▸ hkey)
  · exact hba (hpair ▸ hkey)

variable [Scalar α]

/-- The weight of an entry is read in both directions. -/
theorem couplingBetween_of_mem (h : EachPairOnce weights) (hx : ((a, b), x) ∈ weights.entries) :
    couplingBetween weights a b = x ∧ couplingBetween weights b a = x := by
  have hab : weights.get? (a, b) = some x := OrderedMap.get?_eq_some_iff.mpr hx
  have hdirect : couplingBetween weights a b = x := by simp only [couplingBetween, hab]
  refine ⟨hdirect, ?_⟩
  by_cases heq : a = b
  · subst heq
    exact hdirect
  · have hba := get?_eq_none_of_not_mem (h a b heq (mem_keys_of_mem hx))
    simp only [couplingBetween, hba, OrderedMap.getD, hab, Option.getD_some]

/-- Classes that are no key in either direction have weight zero. -/
theorem couplingBetween_of_not_mem (hab : (a, b) ∉ weights.keys) (hba : (b, a) ∉ weights.keys) :
    couplingBetween weights a b = 0 := by
  simp only [couplingBetween, get?_eq_none_of_not_mem hab, OrderedMap.getD,
    get?_eq_none_of_not_mem hba, Option.getD_none]

/-- The coupling of two classes does not depend on their order. -/
theorem couplingBetween_comm (h : EachPairOnce weights) (a b : String) :
    couplingBetween weights a b = couplingBetween weights b a := by
  rcases exists_mem_or_not_mem_keys weights a b with ⟨x, hx⟩ | ⟨x, hx⟩ | ⟨hab, hba⟩
  · obtain ⟨hdirect, hreverse⟩ := couplingBetween_of_mem h hx
    rw [hdirect, hreverse]
  · obtain ⟨hdirect, hreverse⟩ := couplingBetween_of_mem h hx
    rw [hdirect, hreverse]
  · rw [couplingBetween_of_not_mem hab hba, couplingBetween_of_not_mem hba hab]

/-- The first coupling of a pair that is stored once is the stored one. -/
theorem firstWeight_of_mem (h : EachPairOnce weights) (hne : a ≠ b)
    (hx : ((a, b), x) ∈ weights.entries) : firstWeight weights a b = keepNonzero 0 x := by
  rw [firstWeight, filter_relates_of_mem h hne hx]
  rfl

/-- A pair that is not stored has no coupling. -/
theorem firstWeight_of_not_mem (hab : (a, b) ∉ weights.keys) (hba : (b, a) ∉ weights.keys) :
    firstWeight weights a b = 0 := by
  rw [firstWeight, filter_relates_of_not_mem hab hba]
  rfl

/-- The first coupling of two classes does not depend on their order. -/
theorem firstWeight_comm (weights : CouplingWeights α) (a b : String) :
    firstWeight weights a b = firstWeight weights b a := by
  have hrelates : relates a b = relates b a := by
    funext p
    exact Bool.or_comm _ _
  rw [firstWeight, firstWeight, hrelates]

/-- **The first weight other than zero is what a look-up finds**, between two different
classes. -/
theorem firstWeight_eq_couplingBetween (hz : ((0 : α) == 0) = true) (h : EachPairOnce weights)
    (hne : a ≠ b) : firstWeight weights a b = couplingBetween weights a b := by
  have hoffer : ∀ x : α, keepNonzero 0 x = x := fun x => if_pos hz
  rcases exists_mem_or_not_mem_keys weights a b with ⟨x, hx⟩ | ⟨x, hx⟩ | ⟨hab, hba⟩
  · rw [firstWeight_of_mem h hne hx, (couplingBetween_of_mem h hx).1, hoffer]
  · rw [firstWeight_comm, firstWeight_of_mem h hne.symm hx, (couplingBetween_of_mem h hx).2, hoffer]
  · rw [firstWeight_of_not_mem hab hba, couplingBetween_of_not_mem hab hba]

end

end Linkage
