import Mathlib
import Linkage.Proofs.Json.ReadObjects
import Linkage.Table.Column

/-!
# Columns of documents

The numbers of a column are made alike unless one of them is out of range: too large for a
floating point number, and not after cells that make the column mixed, because nothing matters
after those. What becomes of cells that are documents are documents.

## Main results

* `unified?_eq_none_iff`: the columns with a number out of range.
* `isDocument_of_unified?`, `isDocument_of_converted`: the cells of a column stay documents.
-/

namespace Linkage.Column

open Json

/-! ### Numbers out of range -/

/-- Cells with **a number out of range**: too large for a floating point number, and not after
cells that make the column mixed. -/
def IsOutOfRange (cells : List (Value Float)) : Prop :=
  ∃ before n, before ++ [.int n] <+: cells ∧ (survey before).isMixed = false ∧
    (Scalar.ofInt? n : Option Float) = none

/-- A further cell is out of range when it is a number that is too large, unless the column is
mixed. -/
theorem isOutside_add_iff {s : Survey} {c : Value Float} : (s.add c).isOutside = true ↔
    s.isOutside = true ∨ s.isMixed = false ∧ ∃ n, c = .int n ∧
      (Scalar.ofInt? n : Option Float) = none := by
  unfold Survey.add
  cases hmixed : s.isMixed with
  | true => simp
  | false =>
      cases c with
      | real x =>
          have hreal : ∀ p : Prop, ∀ [Decidable p] (a b : Survey), a.isOutside = s.isOutside →
              b.isOutside = s.isOutside → (if p then a else b).isOutside = s.isOutside :=
            fun p _ a b ha hb => by split <;> assumption
          simp [hreal]
      | _ => simp

/-- The survey of a column finds what is out of range. -/
theorem isOutside_survey_iff {cells : List (Value Float)} :
    (survey cells).isOutside = true ↔ IsOutOfRange cells := by
  induction cells using List.reverseRecOn with
  | nil => exact iff_of_false (fun h => by cases h) (fun ⟨before, n, h, _⟩ => by simp at h)
  | append_singleton cells c ih =>
      have hadd : survey (cells ++ [c]) = (survey cells).add c := by
        rw [survey, List.foldl_append]
        rfl
      rw [hadd, isOutside_add_iff, ih]
      unfold IsOutOfRange
      simp only [List.prefix_concat_iff]
      constructor
      · rintro (⟨before, n, hprefix, hmixed, hn⟩ | ⟨hmixed, n, rfl, hn⟩)
        · exact ⟨before, n, .inr hprefix, hmixed, hn⟩
        · exact ⟨cells, n, .inl rfl, hmixed, hn⟩
      · rintro ⟨before, n, heq | hprefix, hmixed, hn⟩
        · obtain ⟨rfl, hc⟩ := List.append_inj' heq rfl
          exact .inr ⟨hmixed, n, (List.singleton_inj.mp hc).symm, hn⟩
        · exact .inl ⟨before, n, hprefix, hmixed, hn⟩

/-- **The numbers of a column are made alike** unless one of them is out of range. -/
theorem unified?_eq_none_iff {cells : List (Value Float)} :
    unified? cells = none ↔ IsOutOfRange cells := by
  rw [← isOutside_survey_iff]
  unfold unified?
  simp only
  split
  · next houtside => exact iff_of_true rfl houtside
  · next hinside =>
    refine iff_of_false (fun h => ?_) hinside
    split at h <;> cases h

/-! ### Documents -/

/-- The cells of a column are documents after its numbers have been made alike. -/
theorem isDocument_of_unified? {cells cells' : List (Value Float)}
    (hcells : ∀ v ∈ cells, IsDocument v)
    (h : unified? cells = some cells') : ∀ v ∈ cells', IsDocument v := by
  have hreal : ∀ v : Value Float, IsDocument (toReal v) := fun v => by
    unfold toReal
    split <;> exact .real _
  unfold unified? at h
  simp only at h
  split at h
  · cases h
  · split at h
    · obtain rfl := Option.some.inj h
      exact List.forall_mem_map.mpr fun v _ => hreal v
    · obtain rfl := Option.some.inj h
      exact hcells

/-- Cells that stand for numbers are still documents when they have become numbers. -/
theorem isDocument_of_converted {cells : List (Value Float)} (hcells : ∀ v ∈ cells, IsDocument v) :
    ∀ v ∈ converted cells, IsDocument v := by
  have hnarrowed : ∀ xs : List Float, ∀ v ∈ narrowed cells xs, IsDocument v := by
    intro xs
    have hreals : ∀ v ∈ xs.map Value.real, IsDocument v :=
      List.forall_mem_map.mpr fun x _ => .real x
    unfold narrowed
    split
    · split
      · exact List.forall_mem_map.mpr fun n _ => .int n
      · exact hreals
    · exact hreals
  unfold converted
  split
  · exact hcells
  · split
    · exact hnarrowed _
    · exact hcells

end Linkage.Column
