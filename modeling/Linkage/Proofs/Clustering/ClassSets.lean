import Mathlib
import Linkage.Proofs.Clustering.Recomputation

/-!
# Merging as a matter of class sets

Average linkage reads the class sets of the active clusters, in the order of creation, and
nothing else of their trees. `ClassSets.History w sets fusions rest` states that the procedure
turns the list `sets` into the list `rest`, where `fusions` are the pairs of sets that it
joins, in order. Names and levels of clusters do not occur in a history, so histories of
different tables can be compared.

## Main results

* `closest?_eq_some_iff`: the pair that is joined is the first one that no pair exceeds.
* `closest?_eq_none_iff`: there is a pair to join as long as there are two sets.
* `Separated.join`: a merge keeps sets apart.
* `History.separated`: so does a history.
* `History.exists_strongest`: the first merge of single classes joins a pair with the largest
  weight.
* `History.congr`: a history depends on the weights between different classes alone.
-/

namespace Linkage

/-! ### Fusions -/

/-- A **fusion**: two sets of classes joined at a coupling. -/
structure Fusion where
  /-- The union of the two sets. -/
  classes : List String
  /-- The set that was created first. -/
  left : List String
  /-- The other set. -/
  right : List String
  /-- The coupling at which they are joined. -/
  coupling : ℚ
  deriving DecidableEq, Repr

/-- The total weight across the two sets of a fusion: its coupling times the number of pairs
across them. -/
def Fusion.total (f : Fusion) : ℚ := f.coupling * f.left.length * f.right.length

namespace Dendrogram

/-- The fusion that an inner node records. -/
def fusion? : Dendrogram ℚ → Option Fusion
  | leaf _ _ => none
  | node n l r c k => some ⟨(node n l r c k).classes, l.classes, r.classes, c⟩

/-- The **fusions of a tree**, in the order of the walk. -/
def fusions (t : Dendrogram ℚ) : List Fusion := t.nodes.filterMap fusion?

@[simp] theorem fusions_leaf (n : String) (c : ℚ) : (leaf n c).fusions = [] := by
  simp [fusions, fusion?]

@[simp] theorem fusions_node (n : String) (l r : Dendrogram ℚ) (c : ℚ) (k : Nat) :
    (node n l r c k).fusions =
      ⟨(node n l r c k).classes, l.classes, r.classes, c⟩ :: (l.fusions ++ r.fusions) := by
  simp [fusions, fusion?]

/-- The fusions below a node are fusions of the tree. -/
theorem fusions_subset_of_mem_nodes {t v : Dendrogram ℚ} (h : v ∈ t.nodes) :
    v.fusions ⊆ t.fusions :=
  List.filterMap_subset _ (nodes_subset_of_mem_nodes h)

/-- A fusion of a tree is made by one of its inner nodes. -/
theorem exists_node_of_mem_fusions {t : Dendrogram ℚ} {f : Fusion} (hf : f ∈ t.fusions) :
    ∃ v ∈ t.nodes, v.isLeaf = false ∧ v.classes = f.classes := by
  obtain ⟨v, hv, hvf⟩ := List.mem_filterMap.mp hf
  cases v with
  | leaf n c => cases hvf
  | node n l r c k =>
      obtain rfl := Option.some.inj hvf
      exact ⟨_, hv, rfl, rfl⟩

end Dendrogram

namespace ClassSets

/-! ### The procedure on class sets -/

section Procedure

variable (w : String → String → ℚ)

/-- The **first pair of sets with the largest mean weight**. -/
def closest? (sets : List (List String)) : Option (List String × List String) :=
  (orderedPairs sets).find? fun p => (orderedPairs sets).all fun q =>
    decide (meanWeight w q.1 q.2 ≤ meanWeight w p.1 p.2)

/-- The fusion of two sets at the mean weight across them. -/
def fuse (a b : List String) : Fusion := ⟨Text.members (a ++ b), a, b, meanWeight w a b⟩

end Procedure

/-- The sets other than two given ones. -/
def others (sets : List (List String)) (a b : List String) : List (List String) :=
  sets.filter fun s => decide (s ≠ a ∧ s ≠ b)

/-- The sets after two of them are joined: the others, and the union last. -/
def join (sets : List (List String)) (a b : List String) : List (List String) :=
  others sets a b ++ [Text.members (a ++ b)]

/-- A **history** of merges: how a list of sets becomes another one, with the fusions made, in
order. -/
inductive History (w : String → String → ℚ) :
    List (List String) → List Fusion → List (List String) → Prop
  /-- Nothing is joined. -/
  | refl (sets : List (List String)) : History w sets [] sets
  /-- The first pair with the largest mean is joined, and the history goes on. -/
  | step {sets rest : List (List String)} {a b : List String} {fs : List Fusion} :
      closest? w sets = some (a, b) → History w (join sets a b) fs rest →
      History w sets (fuse w a b :: fs) rest

/-! ### The pair that is joined -/

section Closest

variable {w : String → String → ℚ} {sets : List (List String)} {a b : List String}

/-- The pair that is joined is the first one that no pair exceeds. -/
theorem closest?_eq_some_iff :
    closest? w sets = some (a, b) ↔
      (∀ p ∈ orderedPairs sets, meanWeight w p.1 p.2 ≤ meanWeight w a b) ∧
      ∃ earlier later, orderedPairs sets = earlier ++ (a, b) :: later ∧
        ∀ p ∈ earlier, meanWeight w p.1 p.2 < meanWeight w a b := by
  simp only [closest?, List.find?_eq_some_iff_append, List.all_eq_true, decide_eq_true_eq,
    Bool.not_eq_true', List.all_eq_false, decide_eq_true_eq, not_le]
  refine and_congr_right fun hmax => exists_congr fun earlier => exists_congr fun later =>
    and_congr_right fun hsplit => forall₂_congr fun p _ => ⟨?_, fun hlt => ⟨(a, b), ?_, hlt⟩⟩
  · rintro ⟨q, hq, hlt⟩
    exact lt_of_lt_of_le hlt (hmax q hq)
  · rw [hsplit]
    simp

/-- The closest pair is one of the pairs. -/
theorem mem_of_closest? (h : closest? w sets = some (a, b)) : (a, b) ∈ orderedPairs sets :=
  List.mem_of_find?_eq_some h

/-- No pair has a larger mean than the pair that is joined. -/
theorem pairwise_le_of_closest? (h : closest? w sets = some (a, b)) :
    sets.Pairwise fun x y => meanWeight w x y ≤ meanWeight w a b :=
  pairwise_iff_orderedPairs.mpr (closest?_eq_some_iff.mp h).1

/-- There is a pair to join as long as there are two sets. -/
theorem closest?_eq_none_iff : closest? w sets = none ↔ sets.length ≤ 1 := by
  rw [← orderedPairs_eq_nil_iff]
  constructor
  · intro hnone
    by_contra hne
    obtain ⟨m, hm⟩ := Option.ne_none_iff_exists'.mp
      (mt (List.argmax_eq_none (f := fun p : List String × List String =>
        meanWeight w p.1 p.2)).mp hne)
    refine List.find?_eq_none.mp hnone m (List.argmax_mem hm) ?_
    rw [List.all_eq_true]
    exact fun q hq => decide_eq_true (List.le_of_mem_argmax hq hm)
  · intro hnil
    simp [closest?, hnil]

end Closest

/-! ### Sets that are kept apart -/

/-- Sets are **separated** when none is empty, none repeats a class, and no two share one. -/
structure Separated (sets : List (List String)) : Prop where
  /-- No set is empty. -/
  ne_nil : ∀ s ∈ sets, s ≠ []
  /-- No set repeats a class. -/
  nodup : ∀ s ∈ sets, s.Nodup
  /-- No two sets share a class. -/
  disjoint : sets.Pairwise List.Disjoint

section Separated

variable {sets : List (List String)} {a b : List String}

/-- Separated sets are different. -/
theorem Separated.nodup_sets (h : Separated sets) : sets.Nodup := by
  refine (h.disjoint.imp_of_mem fun {s t} hs _ hst heq => ?_)
  obtain ⟨x, hx⟩ := List.exists_mem_of_ne_nil s (h.ne_nil s hs)
  exact hst hx (heq ▸ hx)

/-- Separated sets are, up to order, the two of a pair and the others. -/
theorem Separated.perm_others (h : Separated sets) (hab : (a, b) ∈ orderedPairs sets) :
    sets.Perm (a :: b :: others sets a b) := by
  obtain ⟨ha, hb⟩ := mem_of_mem_orderedPairs hab
  have hne : a ≠ b := rel_of_mem_orderedPairs h.nodup_sets hab
  have hnodup : (a :: b :: others sets a b).Nodup := by
    simp [others, hne, h.nodup_sets.filter]
  refine (List.perm_ext_iff_of_nodup h.nodup_sets hnodup).mpr fun s => ?_
  simp only [others, List.mem_cons, List.mem_filter, decide_eq_true_eq]
  constructor
  · intro hs
    by_cases hsa : s = a
    · exact .inl hsa
    · by_cases hsb : s = b
      · exact .inr (.inl hsb)
      · exact .inr (.inr ⟨hs, hsa, hsb⟩)
  · rintro (rfl | rfl | ⟨hs, -⟩)
    · exact ha
    · exact hb
    · exact hs

/-- Sets stay separated in another order. -/
theorem Separated.of_perm {sets' : List (List String)} (h : Separated sets)
    (hperm : sets.Perm sets') : Separated sets' where
  ne_nil s hs := h.ne_nil s (hperm.mem_iff.mpr hs)
  nodup s hs := h.nodup s (hperm.mem_iff.mpr hs)
  disjoint := (hperm.pairwise_iff fun {_ _} hst => hst.symm).mp h.disjoint

/-- Some of the sets that are separated are separated. -/
theorem Separated.filter (h : Separated sets) (p : List String → Bool) :
    Separated (sets.filter p) where
  ne_nil s hs := h.ne_nil s (List.mem_of_mem_filter hs)
  nodup s hs := h.nodup s (List.mem_of_mem_filter hs)
  disjoint := h.disjoint.filter p

/-- The two sets of a pair share no class, with each other or with the others. -/
theorem Separated.disjoint_pair (h : Separated sets) (hab : (a, b) ∈ orderedPairs sets) :
    a.Disjoint b ∧ ∀ s ∈ others sets a b, s.Disjoint a ∧ s.Disjoint b := by
  obtain ⟨ha, hb⟩ := List.pairwise_cons.mp (h.of_perm (h.perm_others hab)).disjoint
  refine ⟨ha b (by simp), fun s hs => ⟨(ha s (by simp [hs])).symm, ?_⟩⟩
  exact ((List.pairwise_cons.mp hb).1 s hs).symm

/-- The union of the two sets of a pair is their classes in another order. -/
theorem Separated.union_perm (h : Separated sets) (hab : (a, b) ∈ orderedPairs sets) :
    (Text.members (a ++ b)).Perm (a ++ b) := by
  obtain ⟨ha, hb⟩ := mem_of_mem_orderedPairs hab
  exact Text.members_perm
    (List.nodup_append'.mpr ⟨h.nodup a ha, h.nodup b hb, (h.disjoint_pair hab).1⟩)

/-- **A merge keeps sets apart.** -/
theorem Separated.join (h : Separated sets) (hab : (a, b) ∈ orderedPairs sets) :
    Separated (join sets a b) := by
  obtain ⟨ha, hb⟩ := mem_of_mem_orderedPairs hab
  have hunion := h.union_perm hab
  have hkept : ∀ s ∈ others sets a b, s ∈ sets := fun s hs => List.mem_of_mem_filter hs
  refine ⟨?_, ?_, ?_⟩
  · intro s hs
    rcases List.mem_append.mp hs with hs | hs
    · exact h.ne_nil s (hkept s hs)
    · obtain rfl := List.mem_singleton.mp hs
      intro hnil
      rw [hnil, List.nil_perm, List.append_eq_nil_iff] at hunion
      exact h.ne_nil a ha hunion.1
  · intro s hs
    rcases List.mem_append.mp hs with hs | hs
    · exact h.nodup s (hkept s hs)
    · obtain rfl := List.mem_singleton.mp hs
      exact Text.nodup_members _
  · refine List.pairwise_append.mpr ⟨h.disjoint.sublist List.filter_sublist, by simp, ?_⟩
    intro s hs u hu x hxs hxu
    obtain rfl := List.mem_singleton.mp hu
    obtain ⟨hsa, hsb⟩ := (h.disjoint_pair hab).2 s hs
    rcases List.mem_append.mp (hunion.mem_iff.mp hxu) with hx | hx
    · exact hsa hxs hx
    · exact hsb hxs hx

/-- **A history keeps sets apart.** -/
theorem History.separated {w : String → String → ℚ} {fs : List Fusion}
    {rest : List (List String)} (hH : History w sets fs rest) (h : Separated sets) :
    Separated rest := by
  induction hH with
  | refl sets => exact h
  | step hclosest _ ih => exact ih (h.join (mem_of_closest? hclosest))

/-- A history of some sets leaves some sets. -/
theorem History.ne_nil {w : String → String → ℚ} {fs : List Fusion} {rest : List (List String)}
    (hH : History w sets fs rest) (h : sets ≠ []) : rest ≠ [] := by
  induction hH with
  | refl sets => exact h
  | step _ _ ih => exact ih (by simp [ClassSets.join])

/-- The classes of a merge are classes of the sets before it. -/
theorem subset_of_mem_join {C : List String} (hC : ∀ s ∈ sets, s ⊆ C)
    (hab : (a, b) ∈ orderedPairs sets) : ∀ s ∈ ClassSets.join sets a b, s ⊆ C := by
  obtain ⟨ha, hb⟩ := mem_of_mem_orderedPairs hab
  intro s hs
  rcases List.mem_append.mp hs with hs | hs
  · exact hC s (List.mem_of_mem_filter hs)
  · obtain rfl := List.mem_singleton.mp hs
    intro x hx
    rcases List.mem_append.mp (Text.mem_members.mp hx) with hx | hx
    · exact hC a ha hx
    · exact hC b hb hx

/-- Single classes are separated. -/
theorem separated_singletons {classes : List String} (h : classes.Nodup) :
    Separated (classes.map fun x => [x]) := by
  refine ⟨?_, ?_, ?_⟩
  · simp
  · simp
  · exact List.pairwise_map.mpr (h.imp fun hxy => by simpa using Ne.symm hxy)

/-- The sets of single classes have no other classes. -/
theorem subset_of_mem_singletons {classes s : List String}
    (h : s ∈ classes.map fun x => [x]) : s ⊆ classes := by
  obtain ⟨x, hx, rfl⟩ := List.mem_map.mp h
  simpa using hx

/-- **The first merge of several single classes joins a pair with the largest weight.** -/
theorem History.exists_strongest {w : String → String → ℚ} (hw : ∀ x y, w x y = w y x)
    {C : List String} (hC : C.Nodup) (htwo : 2 ≤ C.length) {fs : List Fusion} {s : List String}
    (hH : History w (C.map fun x => [x]) fs [s]) :
    ∃ x ∈ C, ∃ y ∈ C, x ≠ y ∧ fuse w [x] [y] ∈ fs ∧
      ∀ u ∈ C, ∀ v ∈ C, u ≠ v → w u v ≤ w x y := by
  generalize hsets : (C.map fun x => [x]) = sets at hH
  generalize hrest : [s] = rest at hH
  cases hH with
  | refl =>
      have hlen := congrArg List.length (hsets.trans hrest.symm)
      rw [List.length_map, List.length_singleton] at hlen
      omega
  | @step _ _ a b fs hclosest _ =>
      subst hsets
      have hab := mem_of_closest? hclosest
      obtain ⟨ha, hb⟩ := mem_of_mem_orderedPairs hab
      obtain ⟨x, hx, rfl⟩ := List.mem_map.mp ha
      obtain ⟨y, hy, rfl⟩ := List.mem_map.mp hb
      have hne : x ≠ y := by
        rintro rfl
        exact rel_of_mem_orderedPairs (separated_singletons hC).nodup_sets hab rfl
      have hmax := List.pairwise_map.mp (pairwise_le_of_closest? hclosest)
      simp only [meanWeight_singletons] at hmax
      have : Std.Symm fun u v => w u v ≤ w x y := ⟨fun u v h => hw v u ▸ h⟩
      exact ⟨x, hx, y, hy, hne, List.mem_cons_self, fun u hu v hv huv => hmax.forall hu hv huv⟩

end Separated

/-! ### Histories of different weights -/

section Congruence

variable {w w' : String → String → ℚ} {sets rest : List (List String)} {fs : List Fusion}

/-- The closest pair depends on the mean weights of the pairs alone. -/
theorem closest?_congr
    (h : ∀ p ∈ orderedPairs sets, meanWeight w p.1 p.2 = meanWeight w' p.1 p.2) :
    closest? w sets = closest? w' sets := by
  have hall : ∀ p ∈ orderedPairs sets,
      ((orderedPairs sets).all fun q => decide (meanWeight w q.1 q.2 ≤ meanWeight w p.1 p.2)) =
        (orderedPairs sets).all fun q => decide (meanWeight w' q.1 q.2 ≤ meanWeight w' p.1 p.2) :=
    fun p hp => by
      rw [Bool.eq_iff_iff, List.all_eq_true, List.all_eq_true, h p hp]
      exact forall₂_congr fun q hq => by rw [h q hq]
  rw [closest?, closest?]
  exact List.find?_congr hall

/-- **A history depends on the weights between different classes of its sets alone.** -/
theorem History.congr {C : List String} (hH : History w sets fs rest) (hS : Separated sets)
    (hC : ∀ s ∈ sets, s ⊆ C) (h : ∀ x ∈ C, ∀ y ∈ C, x ≠ y → w x y = w' x y) :
    History w' sets fs rest := by
  induction hH with
  | refl sets => exact .refl sets
  | @step sets rest a b fs hclosest _ ih =>
      have hab := mem_of_closest? hclosest
      have hmean : ∀ p ∈ orderedPairs sets, meanWeight w p.1 p.2 = meanWeight w' p.1 p.2 := by
        intro p hp
        obtain ⟨hp₁, hp₂⟩ := mem_of_mem_orderedPairs hp
        refine meanWeight_congr fun x hx y hy => h x (hC _ hp₁ hx) y (hC _ hp₂ hy) ?_
        rintro rfl
        exact (rel_of_mem_orderedPairs hS.disjoint hp) hx hy
      have hfuse : fuse w a b = fuse w' a b := by rw [fuse, fuse, hmean _ hab]
      rw [hfuse]
      exact .step (closest?_congr hmean ▸ hclosest)
        (ih (hS.join hab) (subset_of_mem_join hC hab))

/-- Every fusion of a history carries the mean weight across its two sets. -/
theorem History.coupling_eq (hH : History w sets fs rest) :
    ∀ f ∈ fs, f.coupling = meanWeight w f.left f.right := by
  induction hH with
  | refl sets => simp
  | step _ _ ih =>
      intro f hf
      rcases List.mem_cons.mp hf with rfl | hf
      · rfl
      · exact ih f hf

end Congruence

end ClassSets

end Linkage
