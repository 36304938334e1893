import Mathlib
import Linkage.Module.Basic

/-!
# Pairs of a list

The pairs of a list are its elements, each with those after it. They follow the list through a
map and a filter, and a relation between each element and those after it is a property of the
pairs.

## Main results

* `pairwise_iff_orderedPairs`: a relation holds pairwise when it holds of every pair.
* `orderedPairs_map`, `orderedPairs_filter`: the pairs of an image and of a part of a list.
* `length_orderedPairs`: the number of pairs.
* `mem_orderedPairs_of_pairwise_lt`: the pairs of an increasing list.
-/

namespace Linkage

variable {β : Type}

/-- Both halves of a pair are elements. -/
theorem mem_of_mem_orderedPairs {p : β × β} {xs : List β} (h : p ∈ orderedPairs xs) :
    p.1 ∈ xs ∧ p.2 ∈ xs := by
  induction xs with
  | nil => simp [orderedPairs] at h
  | cons a rest ih =>
      rcases List.mem_append.mp h with h | h
      · obtain ⟨b, hb, rfl⟩ := List.mem_map.mp h
        exact ⟨by simp, by simp [hb]⟩
      · obtain ⟨h₁, h₂⟩ := ih h
        exact ⟨by simp [h₁], by simp [h₂]⟩

/-- A relation between each element and those after it holds of every pair. -/
theorem rel_of_mem_orderedPairs {R : β → β → Prop} {p : β × β} {xs : List β}
    (hR : xs.Pairwise R) (h : p ∈ orderedPairs xs) : R p.1 p.2 := by
  induction xs with
  | nil => simp [orderedPairs] at h
  | cons a rest ih =>
      obtain ⟨ha, hrest⟩ := List.pairwise_cons.mp hR
      rcases List.mem_append.mp h with h | h
      · obtain ⟨b, hb, rfl⟩ := List.mem_map.mp h
        exact ha b hb
      · exact ih hrest h

/-- A relation between each element and those after it is a property of the pairs. -/
theorem pairwise_iff_orderedPairs {R : β → β → Prop} {xs : List β} :
    xs.Pairwise R ↔ ∀ p ∈ orderedPairs xs, R p.1 p.2 := by
  refine ⟨fun hR p hp => rel_of_mem_orderedPairs hR hp, fun h => ?_⟩
  induction xs with
  | nil => exact List.Pairwise.nil
  | cons a rest ih =>
      refine List.pairwise_cons.mpr ⟨fun b hb => ?_, ih fun p hp => ?_⟩
      · exact h (a, b) (List.mem_append_left _ (List.mem_map.mpr ⟨b, hb, rfl⟩))
      · exact h p (List.mem_append_right _ hp)

/-- Pairs may be formed before or after a function is applied. -/
theorem orderedPairs_map {γ : Type} (f : β → γ) (xs : List β) :
    orderedPairs (xs.map f) = (orderedPairs xs).map (Prod.map f f) := by
  induction xs with
  | nil => rfl
  | cons x rest ih => simp [orderedPairs, ih, Function.comp_def]

/-- The pairs of a part of a list are the pairs within the part, in the same order. -/
theorem orderedPairs_filter (p : β → Bool) (xs : List β) :
    orderedPairs (xs.filter p) = (orderedPairs xs).filter fun q => p q.1 && p q.2 := by
  induction xs with
  | nil => rfl
  | cons a rest ih =>
      have hpairs : (rest.map fun b => (a, b)).filter (fun q => p q.1 && p q.2) =
          if p a then (rest.filter p).map fun b => (a, b) else [] := by
        cases ha : p a <;> simp [List.filter_map, Function.comp_def, ha]
      rw [orderedPairs, List.filter_append, hpairs, ← ih]
      cases ha : p a <;> simp [ha, orderedPairs]

/-- There is no pair when there are not two elements. -/
theorem orderedPairs_eq_nil_iff {xs : List β} : orderedPairs xs = [] ↔ xs.length ≤ 1 := by
  match xs with
  | [] => simp [orderedPairs]
  | [_] => simp [orderedPairs]
  | _ :: _ :: _ => simp [orderedPairs]

/-- The number of pairs is that of the choices of two. -/
theorem length_orderedPairs (xs : List β) : (orderedPairs xs).length = xs.length.choose 2 := by
  induction xs with
  | nil => rfl
  | cons x rest ih =>
      rw [orderedPairs, List.length_append, List.length_map, ih, List.length_cons,
        Nat.choose_succ_succ, Nat.choose_one_right]

/-- Where no element repeats, no pair does. -/
theorem nodup_orderedPairs {xs : List β} (h : xs.Nodup) : (orderedPairs xs).Nodup := by
  induction xs with
  | nil => exact List.nodup_nil
  | cons x rest ih =>
      obtain ⟨hx, hrest⟩ := List.nodup_cons.mp h
      refine List.nodup_append'.mpr ⟨hrest.map fun _ _ hab => (Prod.mk.inj hab).2, ih hrest, ?_⟩
      intro p hp hp'
      obtain ⟨b, -, rfl⟩ := List.mem_map.mp hp
      exact hx (mem_of_mem_orderedPairs hp').1

/-- The pairs of an increasing list are the pairs of its elements in increasing order. -/
theorem mem_orderedPairs_of_pairwise_lt {xs : List String} (h : xs.Pairwise (· < ·))
    {p : ClassPair} : p ∈ orderedPairs xs ↔ p.1 ∈ xs ∧ p.2 ∈ xs ∧ p.1 < p.2 := by
  constructor
  · intro hp
    obtain ⟨ha, hb⟩ := mem_of_mem_orderedPairs hp
    exact ⟨ha, hb, rel_of_mem_orderedPairs h hp⟩
  · rintro ⟨ha, hb, hlt⟩
    induction xs with
    | nil => simp at ha
    | cons x rest ih =>
        obtain ⟨hx, hrest⟩ := List.pairwise_cons.mp h
        rw [orderedPairs, List.mem_append, List.mem_map]
        rcases List.mem_cons.mp ha with hax | ha
        · rcases List.mem_cons.mp hb with hbx | hb
          · exact absurd (hax.trans hbx.symm) (ne_of_lt hlt)
          · exact .inl ⟨p.2, hb, Prod.ext hax.symm rfl⟩
        · rcases List.mem_cons.mp hb with hbx | hb
          · exact absurd (hbx ▸ hx p.1 ha) (lt_asymm hlt)
          · exact .inr (ih hrest ha hb)

end Linkage
