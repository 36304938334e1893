import Mathlib
import Linkage.Json.Reader
import Linkage.Proofs.Lookup
import Linkage.Proofs.Outcome

/-!
# What a document can be

A document that is read from a text is null, a truth value, a number, a text, a list of
documents or an object. A name that occurs again in an object replaces the value stored under
it, so that the fields of every object, however deep it lies, are those of a map from texts.

The reader descends into lists and objects with one step less at its disposal, so that this is
shown by induction on the steps, for values, items and fields together.

## Main results

* `isDocument_of_readChars`: what is read from a text is a document.
* `IsDocument.exists_of_map`: an object is a map from texts to documents.
-/

namespace Linkage.Json

/-- A **document**. The fields of an object are those of a map from texts. -/
inductive IsDocument : Value Float → Prop where
  /-- No value. -/
  | null : IsDocument .null
  /-- A truth value. -/
  | flag (b : Bool) : IsDocument (.flag b)
  /-- An integer. -/
  | int (n : Int) : IsDocument (.int n)
  /-- A floating point number. -/
  | real (x : Float) : IsDocument (.real x)
  /-- A text. -/
  | text (s : String) : IsDocument (.text s)
  /-- A list of documents. -/
  | list {xs : List (Value Float)} (h : ∀ x ∈ xs, IsDocument x) : IsDocument (.list xs)
  /-- An object. -/
  | object (m : OrderedMap String (Value Float)) (h : ∀ e ∈ m.entries, IsDocument e.2) :
    IsDocument (.record m.entries)

/-! ### Numbers and words -/

/-- A number that was read is a document. -/
theorem isDocument_of_numberBody {negative : Bool} {cs : List Char} {r : Value Float × List Char}
    (h : numberBody negative cs = .ok r) : IsDocument r.1 := by
  unfold numberBody at h
  split at h
  · cases h
  · simp only at h
    split at h
    · split at h
      · cases h
      · cases h
        exact .int _
    · cases h
      exact .real _

/-- A word or a number that was read is a document. -/
theorem isDocument_of_plainValue {cs : List Char} {r : Value Float × List Char}
    (h : plainValue cs = .ok r) : IsDocument r.1 := by
  unfold plainValue at h
  split at h
  · next r' hfind =>
    cases h
    obtain ⟨w, hw, hword⟩ := List.exists_of_findSome?_eq_some hfind
    obtain ⟨rest, -, rfl⟩ := Option.map_eq_some_iff.mp hword
    simp only [words, List.mem_cons, List.not_mem_nil, or_false] at hw
    rcases hw with rfl | rfl | rfl | rfl | rfl | rfl <;> constructor
  · split at h <;> exact isDocument_of_numberBody h

/-! ### Values, items and fields -/

/-- With a number of steps, the reader reads documents, lists of documents, and fields that are
documents, however deep they may be nested. -/
structure ReadsDocuments (steps : ℕ) : Prop where
  /-- What is read as a value. -/
  value : ∀ levels cs r, readValue steps levels cs = .ok r → IsDocument r.1
  /-- What is read as the items of a list. -/
  items : ∀ levels cs r, readItems steps levels cs = .ok r → ∀ v ∈ r.1, IsDocument v
  /-- What is read as the fields of an object, after some that are there. -/
  fields : ∀ levels held cs r, (∀ e ∈ held.entries, IsDocument e.2) →
    readFields steps levels held cs = .ok r → ∀ e ∈ r.1.entries, IsDocument e.2

namespace ReadsDocuments

variable {steps levels : ℕ} (h : ReadsDocuments steps)

include h

/-- With one step more, what is read as a value is a document. -/
theorem value_succ {cs : List Char} {r : Value Float × List Char}
    (hread : readValue (steps + 1) levels cs = .ok r) : IsDocument r.1 := by
  rw [readValue.eq_def] at hread
  simp only at hread
  split at hread
  · obtain ⟨r', -, rfl⟩ := exists_of_map_eq_ok hread
    exact .text _
  · split at hread
    · cases hread
    · split at hread
      · cases hread
        exact .list (by simp)
      · obtain ⟨r', hr', rfl⟩ := exists_of_map_eq_ok hread
        exact .list (h.items _ _ _ hr')
  · split at hread
    · cases hread
    · split at hread
      · cases hread
        exact .object .empty fun _ he => absurd he List.not_mem_nil
      · obtain ⟨r', hr', rfl⟩ := exists_of_map_eq_ok hread
        exact .object _ (h.fields _ _ _ _ (fun _ he => absurd he List.not_mem_nil) hr')
  · exact isDocument_of_plainValue hread

/-- With one step more, what is read as the items of a list are documents. -/
theorem items_succ {cs : List Char} {r : List (Value Float) × List Char}
    (hread : readItems (steps + 1) levels cs = .ok r) : ∀ v ∈ r.1, IsDocument v := by
  rw [readItems] at hread
  obtain ⟨⟨v, rest⟩, hv, hread⟩ := exists_of_bind_eq_ok hread
  have hdocument : IsDocument v := h.value _ _ _ hv
  simp only at hread
  split at hread
  · cases hread
    simpa using hdocument
  · obtain ⟨r', hr', rfl⟩ := exists_of_map_eq_ok hread
    exact List.forall_mem_cons.mpr ⟨hdocument, h.items _ _ _ hr'⟩
  · cases hread

/-- With one step more, the fields that are read after documents are documents. -/
theorem fields_succ {held : OrderedMap String (Value Float)} {cs : List Char}
    {r : OrderedMap String (Value Float) × List Char} (hheld : ∀ e ∈ held.entries, IsDocument e.2)
    (hread : readFields (steps + 1) levels held cs = .ok r) :
    ∀ e ∈ r.1.entries, IsDocument e.2 := by
  rw [readFields.eq_def] at hread
  simp only at hread
  split at hread
  · obtain ⟨⟨name, rest⟩, -, hread⟩ := exists_of_bind_eq_ok hread
    simp only at hread
    split at hread
    · obtain ⟨⟨v, rest⟩, hv, hread⟩ := exists_of_bind_eq_ok hread
      have hinsert : ∀ e ∈ (held.insert name v).entries, IsDocument e.2 := fun e he =>
        (OrderedMap.mem_entries_insert he).elim (hheld e) fun hnew => hnew ▸ h.value _ _ _ hv
      simp only at hread
      split at hread
      · cases hread
        exact hinsert
      · exact h.fields _ _ _ _ hinsert hread
      · cases hread
    · cases hread
  · cases hread

end ReadsDocuments

/-- With any number of steps, what is read are documents. -/
theorem readsDocuments (steps : ℕ) : ReadsDocuments steps := by
  induction steps with
  | zero =>
      refine ⟨fun _ _ _ h => ?_, fun _ _ _ h => ?_, fun _ _ _ _ _ h => ?_⟩
      · cases h
      · cases h
      · cases h
  | succ steps ih =>
      exact ⟨fun _ _ _ => ih.value_succ, fun _ _ _ => ih.items_succ,
        fun _ _ _ _ => ih.fields_succ⟩

/-- **What is read from a text is a document.** -/
theorem isDocument_of_readChars {levels : ℕ} {cs : List Char} {v : Value Float}
    (h : readChars levels cs = .ok v) : IsDocument v := by
  obtain ⟨⟨w, rest⟩, hw, h⟩ := exists_of_bind_eq_ok h
  simp only at h
  split at h
  · cases h
    exact (readsDocuments _).value _ _ _ hw
  · cases h

/-- **An object is a map from texts** to documents. -/
theorem IsDocument.exists_of_map {es : List (Value Float × Value Float)}
    (h : IsDocument (.map es)) :
    ∃ m : OrderedMap String (Value Float), Value.map es = .record m.entries ∧
      ∀ e ∈ m.entries, IsDocument e.2 := by
  generalize hv : Value.map es = v at h
  cases h with
  | object m hm => exact ⟨m, rfl, hm⟩
  | _ => cases hv

end Linkage.Json
