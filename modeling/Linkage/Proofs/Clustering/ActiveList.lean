import Mathlib
import Linkage.Clustering.Clusterer
import Linkage.Proofs.Outcome

/-!
# The list of active clusters

What a merge does to the list of active clusters, whatever the scalars are. Two clusters at
positions `i < j` are taken out and their union is put at the end, so the list is, up to order,
the two clusters and what is kept. A list is *aligned* when every cluster has one link for each
active cluster; then a pair to join is found as soon as there are two clusters, and its
positions are in range and in order.

## Main results

* `perm_dropTwo`: a list is the elements at two positions and what is left without them.
* `closest?_of_aligned`: an aligned list of two or more clusters has a pair to join.
* `Aligned.join`: a merge keeps the list aligned.
-/

namespace Linkage

namespace Cluster

/-! ### Taking out two elements -/

section DropTwo

variable {β γ : Type}

/-- Two elements may be dropped before or after a function is applied. -/
theorem dropTwo_map (f : β → γ) (i j : Nat) (xs : List β) :
    dropTwo i j (xs.map f) = (dropTwo i j xs).map f := by
  simp only [dropTwo, List.eraseIdx_map]

/-- What is left when two elements are dropped keeps its order. -/
theorem dropTwo_sublist (i j : Nat) (xs : List β) : (dropTwo i j xs).Sublist xs :=
  (List.eraseIdx_sublist ..).trans (List.eraseIdx_sublist ..)

/-- A list is, up to order, the elements at two positions and the list without them. -/
theorem perm_dropTwo {i j : Nat} {xs : List β} {a b : β} (hij : i < j) (ha : xs[i]? = some a)
    (hb : xs[j]? = some b) : xs.Perm (a :: b :: dropTwo i j xs) := by
  obtain ⟨hj, rfl⟩ := List.getElem?_eq_some_iff.mp hb
  have ha' : (xs.eraseIdx j)[i]? = some a := by
    rw [List.getElem?_eraseIdx_of_lt hij, ha]
  obtain ⟨hi, rfl⟩ := List.getElem?_eq_some_iff.mp ha'
  have hout : (xs[j] :: xs.eraseIdx j).Perm xs := List.getElem_cons_eraseIdx_perm hj
  have hin : ((xs.eraseIdx j)[i] :: dropTwo i j xs).Perm (xs.eraseIdx j) :=
    List.getElem_cons_eraseIdx_perm hi
  exact hout.symm.trans ((hin.symm.cons _).trans (List.Perm.swap ..))

/-- A relation between each element and those after it holds at two positions in order. -/
theorem rel_of_getElem? {R : β → β → Prop} {xs : List β} (h : xs.Pairwise R) {i j : Nat} {a b : β}
    (hij : i < j) (ha : xs[i]? = some a) (hb : xs[j]? = some b) : R a b := by
  obtain ⟨hi, rfl⟩ := List.getElem?_eq_some_iff.mp ha
  obtain ⟨hj, rfl⟩ := List.getElem?_eq_some_iff.mp hb
  exact List.pairwise_iff_getElem.mp h i j hi hj hij

/-- Dropping two elements leaves two fewer. -/
theorem length_dropTwo {i j : Nat} {xs : List β} (hij : i < j) (hj : j < xs.length) :
    (dropTwo i j xs).length + 2 = xs.length := by
  have ha : xs[i]? = some xs[i] := List.getElem?_eq_getElem (hij.trans hj)
  have hb : xs[j]? = some xs[j] := List.getElem?_eq_getElem hj
  have h := (perm_dropTwo hij ha hb).length_eq
  simp only [List.length_cons] at h
  omega

end DropTwo

variable {α : Type} [Scalar α]

/-! ### Finding a pair to join -/

/-- A list of clusters is **aligned** when every cluster has a link to each active cluster. -/
def Aligned (clusters : List (Cluster α)) : Prop :=
  ∀ c ∈ clusters, c.links.length = clusters.length

/-- The positions of a pair are in order and in range. -/
theorem lt_of_mem_candidates {clusters : List (Cluster α)} {c : Candidate α}
    (h : c ∈ candidates clusters) : c.first < c.second ∧ c.second < clusters.length := by
  obtain ⟨⟨a, i⟩, -, hc⟩ := List.mem_flatMap.mp h
  obtain ⟨⟨⟨b, j⟩, x⟩, hb, rfl⟩ := List.mem_map.mp hc
  obtain ⟨k, hk, hkb⟩ := List.mem_iff_getElem.mp hb
  rw [List.getElem_drop, List.getElem_zip, List.getElem_zipIdx] at hkb
  simp only [Prod.mk.injEq, zero_add] at hkb
  obtain ⟨⟨-, rfl⟩, -⟩ := hkb
  rw [List.length_drop, List.length_zip, List.length_zipIdx] at hk
  constructor
  · simp only
    omega
  · simp only
    omega

/-- An aligned list of two or more clusters has a pair. -/
theorem candidates_ne_nil {clusters : List (Cluster α)} (hA : Aligned clusters)
    (hlen : 2 ≤ clusters.length) : candidates clusters ≠ [] := by
  match clusters, hlen with
  | a :: b :: rest, _ =>
      have hlinks : a.links.length = rest.length + 2 := hA a (by simp)
      intro hnil
      have hfirst : candidatesAt (a :: b :: rest) a 0 = [] := by
        have := List.flatMap_eq_nil_iff.mp hnil (a, 0) (by simp)
        exact this
      have hcount := congrArg List.length hfirst
      simp [candidatesAt, hlinks] at hcount

/-- Choosing the better of two pairs yields one of the two. -/
theorem better_eq_or (c d : Candidate α) : c.better d = c ∨ c.better d = d := by
  unfold Candidate.better
  split
  · exact .inl rfl
  · split
    · exact .inl rfl
    · exact .inr rfl

/-- The better one of some candidates is one of them. -/
theorem foldl_better_mem (rest : List (Candidate α)) (c : Candidate α) :
    rest.foldl Candidate.better c ∈ c :: rest := by
  induction rest generalizing c with
  | nil => simp
  | cons d rest ih =>
      rw [List.foldl_cons]
      rcases better_eq_or c d with h | h
      · rw [h]
        rcases List.mem_cons.mp (ih c) with h' | h'
        · simp [h']
        · simp [h']
      · rw [h]
        exact List.mem_cons_of_mem _ (ih d)

/-- The pair to join is one of the pairs. -/
theorem mem_candidates_of_closest? {clusters : List (Cluster α)} {c : Candidate α}
    (h : closest? clusters = some c) : c ∈ candidates clusters := by
  unfold closest? at h
  split at h
  · cases h
  · next d rest hcandidates =>
    obtain rfl := Option.some.inj h
    exact hcandidates ▸ foldl_better_mem rest d

/-- **A pair to join is found** among two or more clusters: two positions in order and in
range, whatever the averages are. -/
theorem closest?_of_aligned {clusters : List (Cluster α)} (hA : Aligned clusters)
    (hlen : 2 ≤ clusters.length) :
    ∃ c, closest? clusters = some c ∧ c.first < c.second ∧ c.second < clusters.length := by
  have hne := candidates_ne_nil hA hlen
  obtain ⟨c, hc⟩ : ∃ c, closest? clusters = some c := by
    unfold closest?
    cases h : candidates clusters with
    | nil => exact absurd h hne
    | cons c rest => exact ⟨_, rfl⟩
  exact ⟨c, hc, lt_of_mem_candidates (mem_candidates_of_closest? hc)⟩

/-! ### Joining a pair -/

/-- The trees after a merge: the two are taken out and their union comes last. -/
theorem map_tree_join (clusters : List (Cluster α)) (i j : Nat) (union : Dendrogram α)
    (size : Nat) :
    (join clusters i j union size).map tree = dropTwo i j (clusters.map tree) ++ [union] := by
  simp [join, dropTwo_map, keep, Function.comp_def]

/-- A merge leaves one cluster fewer. -/
theorem length_join {clusters : List (Cluster α)} {i j : Nat} (hij : i < j)
    (hj : j < clusters.length) (union : Dendrogram α) (size : Nat) :
    (join clusters i j union size).length + 1 = clusters.length := by
  have h := length_dropTwo hij hj
  simp only [join, List.length_append, List.length_map, List.length_singleton]
  omega

/-- A merge keeps the list aligned. -/
theorem Aligned.join {clusters : List (Cluster α)} (hA : Aligned clusters) {i j : Nat}
    (hij : i < j) (hj : j < clusters.length) (union : Dendrogram α) (size : Nat) :
    Aligned (join clusters i j union size) := by
  have hlen := length_dropTwo hij hj
  intro c hc
  have hjoin := length_join hij hj union size
  unfold Cluster.join at hc
  rcases List.mem_append.mp hc with hc | hc
  · obtain ⟨d, hd, rfl⟩ := List.mem_map.mp hc
    have hdl := hA d ((dropTwo_sublist i j clusters).subset hd)
    have hdrop := length_dropTwo hij (hdl ▸ hj)
    simp only [keep, List.length_append, List.length_singleton]
    omega
  · obtain rfl := List.mem_singleton.mp hc
    simp only [List.length_append, List.length_map, List.length_singleton]
    omega

end Cluster

end Linkage
