import Mathlib
import Linkage.Json.Lines
import Linkage.Proofs.Json.ReadObjects

/-!
# What documents on lines can be

The reader of lines is laxer than the reader of documents, but what it reads are documents as
well: the fields of an object are those of a map from texts, because an object with any other
name is refused.

## Main results

* `isDocument_of_read`: what is read from the lines of a text are documents.
-/

namespace Linkage.Json.Lines

/-! ### Numbers and words -/

/-- An answer is passed on as it is. -/
theorem exists_of_orStop_eq_ok {β : Type} {rest : List Char} {x : Except LineDefect β} {y : β}
    (h : orStop rest x = .ok y) : x = .ok y := by
  cases x with
  | ok x => exact congrArg Except.ok (Except.ok.inj h)
  | error e => cases h

/-- A number with an exponent is a document. -/
theorem isDocument_withExponent (x : Float) (cs : List Char) :
    IsDocument (withExponent x cs).1 := by
  unfold withExponent
  split
  · split <;> exact .real _
  · exact .real _

/-- A number that was read is a document. -/
theorem isDocument_of_number {negative : Bool} {cs : List Char} {r : Value Float × List Char}
    (h : number negative cs = .ok r) : IsDocument r.1 := by
  unfold number at h
  obtain ⟨whole, -, h⟩ := exists_of_bind_eq_ok h
  split at h
  · cases h
    exact isDocument_withExponent _ _
  · split at h
    · split at h
      · cases h
        exact isDocument_withExponent _ _
      · cases h
        exact .int _
    · cases h
      exact .int _

/-- A word that was read is the document it stands for. -/
theorem isDocument_of_exactly {w : String} {v : Value Float} {cs : List Char}
    {r : Value Float × List Char} (hv : IsDocument v) (h : exactly w v cs = .ok r) :
    IsDocument r.1 := by
  unfold exactly at h
  split at h
  · cases h
    exact hv
  · cases h

/-- A word or a number that was read is a document. -/
theorem isDocument_of_plain {cs : List Char} {r : Value Float × List Char} (h : plain cs = .ok r) :
    IsDocument r.1 := by
  unfold plain at h
  split at h
  · exact isDocument_of_exactly .null h
  · exact isDocument_of_exactly (.flag true) h
  · exact isDocument_of_exactly (.flag false) h
  · exact isDocument_of_exactly .null h
  · exact isDocument_of_exactly (.real _) h
  · exact isDocument_of_exactly (.real _) h
  · exact isDocument_of_number h
  · split at h
    · exact isDocument_of_number h
    · cases h
  · cases h

/-! ### Values, items and fields -/

/-- With a number of steps, the reader reads documents, lists of documents, and fields that are
documents, however deep they may be nested. -/
structure ReadsDocuments (steps : ℕ) : Prop where
  /-- What is read as a value. -/
  value : ∀ levels p r, Lines.value steps levels p = .ok r → IsDocument r.1
  /-- What is read as the items of a list. -/
  items : ∀ levels p r, Lines.items steps levels p = .ok r → ∀ v ∈ r.1, IsDocument v
  /-- What is read as the fields of an object, after some that are there. -/
  fields : ∀ levels held p r, (∀ e ∈ held.entries, IsDocument e.2) →
    Lines.fields steps levels held p = .ok r → ∀ e ∈ r.1.entries, IsDocument e.2

namespace ReadsDocuments

variable {steps levels : ℕ} (h : ReadsDocuments steps)

include h

/-- With one step more, what is read as a value is a document. -/
theorem value_succ {p : Spot} {r : Value Float × Spot}
    (hread : Lines.value (steps + 1) levels p = .ok r) : IsDocument r.1 := by
  rw [Lines.value.eq_def] at hread
  simp only at hread
  split at hread
  · obtain ⟨r', -, rfl⟩ := exists_of_map_eq_ok hread
    exact .text _
  · split at hread
    · cases hread
    · split at hread
      · cases hread
        exact .list (by simp)
      · obtain ⟨r', hr', rfl⟩ := exists_of_map_eq_ok hread
        exact .list (h.items _ _ _ hr')
  · split at hread
    · cases hread
    · obtain ⟨r', hr', rfl⟩ := exists_of_map_eq_ok hread
      exact .object _ (h.fields _ _ _ _ (fun _ he => absurd he List.not_mem_nil) hr')
  · obtain ⟨r', hr', rfl⟩ := exists_of_map_eq_ok hread
    exact isDocument_of_plain (exists_of_orStop_eq_ok hr')

/-- With one step more, what is read as the items of a list are documents. -/
theorem items_succ {p : Spot} {r : List (Value Float) × Spot}
    (hread : Lines.items (steps + 1) levels p = .ok r) : ∀ v ∈ r.1, IsDocument v := by
  rw [Lines.items.eq_def] at hread
  simp only at hread
  split at hread
  · cases hread
  · obtain ⟨⟨v, p'⟩, hv, hread⟩ := exists_of_bind_eq_ok hread
    have hdocument : IsDocument v := h.value _ _ _ hv
    simp only at hread
    split at hread
    · cases hread
      simpa using hdocument
    · obtain ⟨r', hr', rfl⟩ := exists_of_map_eq_ok hread
      exact List.forall_mem_cons.mpr ⟨hdocument, h.items _ _ _ hr'⟩
    · cases hread

/-- With one step more, the fields that are read after documents are documents. -/
theorem fields_succ {held : OrderedMap String (Value Float)} {p : Spot}
    {r : OrderedMap String (Value Float) × Spot} (hheld : ∀ e ∈ held.entries, IsDocument e.2)
    (hread : Lines.fields (steps + 1) levels held p = .ok r) :
    ∀ e ∈ r.1.entries, IsDocument e.2 := by
  rw [Lines.fields.eq_def] at hread
  simp only at hread
  split at hread
  · cases hread
    exact hheld
  · obtain ⟨⟨name, p'⟩, -, hread⟩ := exists_of_bind_eq_ok hread
    simp only at hread
    split at hread
    · cases hread
    · split at hread
      · obtain ⟨⟨v, p''⟩, hv, hread⟩ := exists_of_bind_eq_ok hread
        simp only at hread
        split at hread
        · next name _ =>
          have hinsert : ∀ e ∈ (held.insert name v).entries, IsDocument e.2 := fun e he =>
            (OrderedMap.mem_entries_insert he).elim (hheld e) fun hnew => hnew ▸ h.value _ _ _ hv
          split at hread
          · cases hread
            exact hinsert
          · exact h.fields _ _ _ _ hinsert hread
          · cases hread
        · cases hread
      · cases hread

end ReadsDocuments

/-- With any number of steps, what is read are documents. -/
theorem readsDocuments (steps : ℕ) : ReadsDocuments steps := by
  induction steps with
  | zero =>
      refine ⟨fun _ _ _ h => ?_, fun _ _ _ h => ?_, fun _ _ _ _ _ h => ?_⟩
      · cases h
      · cases h
      · cases h
  | succ steps ih =>
      exact ⟨fun _ _ _ => ih.value_succ, fun _ _ _ => ih.items_succ,
        fun _ _ _ _ => ih.fields_succ⟩

/-- **What is read from the lines of a text are documents.** -/
theorem isDocument_of_read {s : String} {vs : List (Value Float)} (h : read s = .ok vs) :
    ∀ v ∈ vs, IsDocument v := by
  have hlist : ∀ {cs : List Char} {vs : List (Value Float)}, wholeList cs = .ok vs →
      ∀ v ∈ vs, IsDocument v := by
    intro cs vs hread
    obtain ⟨⟨w, p⟩, hw, hread⟩ := exists_of_bind_eq_ok hread
    have hdocument : IsDocument w := (readsDocuments _).value _ _ _ hw
    simp only at hread
    split at hread
    · cases hread
      cases hdocument with
      | list hitems => exact hitems
    · cases hread
    · cases hread
  unfold read at h
  simp only at h
  split at h
  · next hread =>
    cases h
    exact hlist hread
  · cases h
  · cases h

end Linkage.Json.Lines
