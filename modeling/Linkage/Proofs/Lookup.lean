import Mathlib
import Linkage.OrderedMap

/-!
# Reading an ordered map

A look-up reads the entries as a set: the keys are distinct, so what is found at a key does not
depend on where its entry stands.

## Main results

* `get?_eq_some_iff`: a value is found at a key exactly when the two form an entry.
* `isSome_get?_iff`: something is found exactly at the keys.
* `entries_ofList`: a list with distinct keys is the list of entries of its map.
* `ofList_entries`: the map of the entries of a map is the map.
* `get?_insertNew`: a value that is stored unless there is one does not hide what was found
  before.
-/

namespace Linkage.OrderedMap

variable {κ ν : Type} [DecidableEq κ]

/-- Where no key is listed twice, what is found under a key is its entry. -/
theorem find_eq_some_iff {k : κ} {v : ν} {es : List (κ × ν)} (h : (es.map Prod.fst).Nodup) :
    find k es = some v ↔ (k, v) ∈ es := by
  induction es with
  | nil => simp [find]
  | cons e rest ih =>
      obtain ⟨hfresh, hrest⟩ := List.nodup_cons.mp h
      rw [find, List.mem_cons]
      by_cases hk : e.1 = k
      · subst hk
        have hnone : (e.1, v) ∉ rest := fun hv => hfresh (List.mem_map.mpr ⟨_, hv, rfl⟩)
        rw [if_pos rfl, Option.some.injEq, or_iff_left hnone, Prod.ext_iff]
        simp [eq_comm]
      · have hne : (k, v) ≠ e := fun he => hk (he ▸ rfl)
        rw [if_neg hk, ih hrest, or_iff_right hne]

/-- A value is found at a key exactly when the two form an entry. -/
theorem get?_eq_some_iff {m : OrderedMap κ ν} {k : κ} {v : ν} :
    m.get? k = some v ↔ (k, v) ∈ m.entries :=
  find_eq_some_iff m.distinct

/-- Something is found exactly at the keys. -/
theorem isSome_get?_iff {m : OrderedMap κ ν} {k : κ} : (m.get? k).isSome ↔ k ∈ m.keys := by
  rw [Option.isSome_iff_exists, keys, List.mem_map]
  constructor
  · rintro ⟨v, hv⟩
    exact ⟨(k, v), get?_eq_some_iff.mp hv, rfl⟩
  · rintro ⟨⟨k', v⟩, hv, rfl⟩
    exact ⟨v, get?_eq_some_iff.mpr hv⟩

/-- What is found at a key is one of the values. -/
theorem mem_values_of_get? {m : OrderedMap κ ν} {k : κ} {v : ν} (h : m.get? k = some v) :
    v ∈ m.values :=
  List.mem_map.mpr ⟨(k, v), get?_eq_some_iff.mp h, rfl⟩

/-- What is found in a map with changed values is the changed value. -/
theorem get?_mapValues {μ : Type} (f : ν → μ) (m : OrderedMap κ ν) (k : κ) :
    (m.mapValues f).get? k = (m.get? k).map f := by
  simp only [get?, mapValues]
  induction m.entries with
  | nil => rfl
  | cons e rest ih =>
      rw [List.map_cons, find, find, ih]
      split <;> rfl

/-- A value that is stored at a new key comes last. -/
theorem put_of_not_mem {k : κ} {es : List (κ × ν)} (h : k ∉ es.map Prod.fst) (v : ν) :
    put k v es = es ++ [(k, v)] := by
  induction es with
  | nil => rfl
  | cons e rest ih =>
      rw [List.map_cons, List.mem_cons, not_or] at h
      rw [put, if_neg (Ne.symm h.1), ih h.2, List.cons_append]

/-- The map of a list with distinct keys has its entries. -/
theorem entries_ofList {es : List (κ × ν)} (h : (es.map Prod.fst).Nodup) :
    (ofList es).entries = es := by
  have hfold : ∀ (es : List (κ × ν)) (m : OrderedMap κ ν),
      ((m.entries ++ es).map Prod.fst).Nodup →
        (es.foldl (fun m e => m.insert e.1 e.2) m).entries = m.entries ++ es := by
    intro es
    induction es with
    | nil => exact fun m _ => (List.append_nil _).symm
    | cons e rest ih =>
        intro m hm
        have hfresh : e.1 ∉ m.entries.map Prod.fst := fun hmem => by
          rw [List.map_append, List.nodup_append] at hm
          exact hm.2.2 _ hmem _ (by simp) rfl
        have hinsert : (m.insert e.1 e.2).entries = m.entries ++ [e] := put_of_not_mem hfresh e.2
        rw [List.foldl_cons, ih _ (by rwa [hinsert, List.append_assoc]), hinsert, List.append_assoc]
        rfl
  exact hfold es empty h

omit [DecidableEq κ] in
/-- Maps with the same entries are equal. -/
theorem eq_of_entries_eq {m m' : OrderedMap κ ν} (h : m.entries = m'.entries) : m = m' := by
  cases m
  cases m'
  cases h
  rfl

/-- The map of the entries of a map is the map. -/
theorem ofList_entries (m : OrderedMap κ ν) : ofList m.entries = m :=
  eq_of_entries_eq (entries_ofList m.distinct)

/-- The keys of a map are those before and the one at which a value is stored. -/
theorem mem_keys_insert {m : OrderedMap κ ν} {k k' : κ} {v : ν} :
    k' ∈ (m.insert k v).keys ↔ k' ∈ m.keys ∨ k' = k := by
  rw [keys_insert]
  split
  · next h => exact ⟨.inl, fun hk => hk.elim id fun hk => hk ▸ h⟩
  · rw [List.mem_append, List.mem_singleton]

/-- The entries of a map in which a value is stored are entries from before and the one of that
value. -/
theorem mem_entries_insert {m : OrderedMap κ ν} {k : κ} {v : ν} {e : κ × ν}
    (he : e ∈ (m.insert k v).entries) : e ∈ m.entries ∨ e = (k, v) := by
  have hget : (m.insert k v).get? e.1 = some e.2 := get?_eq_some_iff.mpr he
  rw [get?_insert] at hget
  split at hget
  · next hk => exact .inr (Prod.ext hk.symm (Option.some.inj hget).symm)
  · exact .inl (get?_eq_some_iff.mp hget)

/-- The entries of the map of a list are in the list. -/
theorem mem_of_mem_entries_ofList {es : List (κ × ν)} {e : κ × ν} (he : e ∈ (ofList es).entries) :
    e ∈ es := by
  have hfold : ∀ (es : List (κ × ν)) (m : OrderedMap κ ν),
      e ∈ (es.foldl (fun m e => m.insert e.1 e.2) m).entries → e ∈ m.entries ∨ e ∈ es := by
    intro es
    induction es with
    | nil => exact fun m h => .inl h
    | cons f rest ih =>
        intro m h
        rcases ih _ h with h | h
        · rcases mem_entries_insert h with h | rfl
          · exact .inl h
          · exact .inr List.mem_cons_self
        · exact .inr (List.mem_cons_of_mem f h)
  exact (hfold es empty he).resolve_left List.not_mem_nil

/-- Storing a value where there is none leaves what is found elsewhere, and what was found
before. -/
theorem get?_insertNew (m : OrderedMap κ ν) (k k' : κ) (v : ν) :
    (m.insertNew k v).get? k' = (m.get? k').or (if k = k' then some v else none) := by
  rw [insertNew, contains]
  by_cases hk : k = k'
  · subst hk
    cases hget : m.get? k with
    | none => simp [get?_insert]
    | some w => simp [hget]
  · cases hget : m.get? k with
    | none => simp [get?_insert, hk]
    | some w => simp [hk]

end Linkage.OrderedMap
