/-!
# Ordered maps

A finite map that remembers the order in which its keys were first stored. Storing a key again
replaces its value and keeps its place, so the entries of a map never repeat a key.

## Main results

* `OrderedMap.keys_insert`: storing adds the key at the end, unless it is already there.
* `OrderedMap.get?_insert`: the value stored last is the one read.
* `OrderedMap.keys_mapValues`: changing values keeps the keys and their order.
-/

namespace Linkage

/-- A **finite map with insertion order**: a list of entries whose keys are distinct. -/
structure OrderedMap (κ ν : Type) where
  /-- The entries in the order in which their keys were first stored. -/
  entries : List (κ × ν)
  /-- No key occurs twice. -/
  distinct : (entries.map Prod.fst).Nodup

namespace OrderedMap

variable {κ ν μ : Type}

/-- The map without entries. -/
def empty : OrderedMap κ ν := ⟨[], List.nodup_nil⟩

instance : Inhabited (OrderedMap κ ν) := ⟨empty⟩

/-- The keys in insertion order. -/
def keys (m : OrderedMap κ ν) : List κ := m.entries.map Prod.fst

/-- The values in insertion order. -/
def values (m : OrderedMap κ ν) : List ν := m.entries.map Prod.snd

/-- The number of entries. -/
def size (m : OrderedMap κ ν) : Nat := m.entries.length

/-- Whether there are no entries. -/
def isEmpty (m : OrderedMap κ ν) : Bool := m.entries.isEmpty

/-- The same keys with values changed by `f`. -/
def mapValues (f : ν → μ) (m : OrderedMap κ ν) : OrderedMap κ μ :=
  ⟨m.entries.map fun e => (e.1, f e.2), by
    have h : (m.entries.map fun e => (e.1, f e.2)).map Prod.fst = m.entries.map Prod.fst := by
      simp [Function.comp_def]
    rw [h]; exact m.distinct⟩

/-- Replacing the values keeps the keys. -/
theorem keys_mapValues (f : ν → μ) (m : OrderedMap κ ν) : (m.mapValues f).keys = m.keys := by
  simp [keys, mapValues, Function.comp_def]

variable [DecidableEq κ]

/-- The value stored at a key in a list of entries. -/
def find (k : κ) : List (κ × ν) → Option ν
  | [] => none
  | e :: rest => if e.1 = k then some e.2 else find k rest

/-- Stores a value in a list of entries: in place when the key is there, else at the end. -/
def put (k : κ) (v : ν) : List (κ × ν) → List (κ × ν)
  | [] => [(k, v)]
  | e :: rest => if e.1 = k then (e.1, v) :: rest else e :: put k v rest

/-- An entry that is put keeps the keys, and a new key comes last. -/
theorem map_fst_put (k : κ) (v : ν) (es : List (κ × ν)) :
    (put k v es).map Prod.fst =
      if k ∈ es.map Prod.fst then es.map Prod.fst else es.map Prod.fst ++ [k] := by
  induction es with
  | nil => simp [put]
  | cons e rest ih =>
    by_cases h : e.1 = k
    · subst h; simp [put]
    · have h' : ¬ k = e.1 := fun hk => h hk.symm
      by_cases hm : k ∈ rest.map Prod.fst
      · simp [put, h, ih, if_pos hm, List.mem_cons.2 (Or.inr hm)]
      · have hn : ¬ k ∈ (e :: rest).map Prod.fst := by
          simp only [List.map_cons, List.mem_cons, not_or]
          exact ⟨h', hm⟩
        rw [if_neg hn]
        simp [put, h, ih, if_neg hm]

/-- The value stored at a key. -/
def get? (m : OrderedMap κ ν) (k : κ) : Option ν := find k m.entries

/-- The value stored at a key, or a default. -/
def getD (m : OrderedMap κ ν) (k : κ) (default : ν) : ν := (m.get? k).getD default

/-- Whether a key is stored. -/
def contains (m : OrderedMap κ ν) (k : κ) : Bool := (m.get? k).isSome

/-- Stores a value: in place when the key is there, else at the end. -/
def insert (m : OrderedMap κ ν) (k : κ) (v : ν) : OrderedMap κ ν :=
  ⟨put k v m.entries, by
    rw [map_fst_put]
    split
    · exact m.distinct
    · next h =>
      rw [List.nodup_append]
      refine ⟨m.distinct, by simp, ?_⟩
      intro a ha b hb hab
      rw [List.mem_singleton] at hb
      subst hb; subst hab
      exact h ha⟩

/-- Stores a value unless the key is already there. -/
def insertNew (m : OrderedMap κ ν) (k : κ) (v : ν) : OrderedMap κ ν :=
  if m.contains k then m else m.insert k v

/-- Stores the entries of a list one after the other. -/
def ofList (es : List (κ × ν)) : OrderedMap κ ν :=
  es.foldl (fun m e => m.insert e.1 e.2) empty

/-- An insertion keeps the keys in their order, and a new key comes last. -/
theorem keys_insert (m : OrderedMap κ ν) (k : κ) (v : ν) :
    (m.insert k v).keys = if k ∈ m.keys then m.keys else m.keys ++ [k] :=
  map_fst_put k v m.entries

/-- What is put under a key is found under it, and nothing else changes. -/
theorem find_put (k k' : κ) (v : ν) (es : List (κ × ν)) :
    find k' (put k v es) = if k = k' then some v else find k' es := by
  induction es with
  | nil => by_cases h : k = k' <;> simp [put, find, h]
  | cons e rest ih =>
    by_cases h : e.1 = k
    · subst h
      by_cases hk : e.1 = k' <;> simp [put, find, hk]
    · by_cases hk : k = k'
      · subst hk
        simp [put, find, h, ih]
      · simp [put, find, h, ih, hk]

/-- What is inserted under a key is found under it, and nothing else changes. -/
theorem get?_insert (m : OrderedMap κ ν) (k k' : κ) (v : ν) :
    (m.insert k v).get? k' = if k = k' then some v else m.get? k' :=
  find_put k k' v m.entries

end OrderedMap

end Linkage
