import Mathlib
import Linkage.Proofs.Clustering.Monotone

/-!
# Unrelated parts of a table

Two parts of a table are unrelated when they share no class. The history over the whole table
mixes the merges of both parts. As long as it makes merges of positive coupling, it joins sets
of one part, and what it joins is what the history over that part joins next: the part of the
active list that lies within it evolves as the list of its own history. Once no mean is
positive, none becomes positive again, in the whole history or in those of the parts. No sign
of the weights is assumed.

## Main results

* `ClassSets.closest?_filter`: a pair that is joined is joined in every part of the list that
  has it.
* `ClassSets.filter_join_of_within`, `ClassSets.filter_join_of_not_within`: the parts of a
  merge.
* `ClassSets.History.positive_perm`: a history over two parts has their positive fusions.
* `positive_perm_of_divided`: the dendrogram of a union has the positive fusions of its two
  parts.
* `positive_fusions_of_unrelated`: so it has for any two tables that share no class.
-/

namespace Linkage

/-- The fusions of **positive** coupling. -/
def positive (fs : List Fusion) : List Fusion := fs.filter fun f => decide (0 < f.coupling)

/-- A fusion with a positive coupling is kept. -/
theorem positive_cons_of_pos {f : Fusion} (h : 0 < f.coupling) (fs : List Fusion) :
    positive (f :: fs) = f :: positive fs :=
  List.filter_cons_of_pos (decide_eq_true h)

/-- Where no coupling is positive, no fusion is kept. -/
theorem positive_eq_nil {fs : List Fusion} (h : ∀ f ∈ fs, f.coupling ≤ 0) : positive fs = [] :=
  List.filter_eq_nil_iff.mpr fun f hf => by simpa using h f hf

namespace ClassSets

variable {w : String → String → ℚ} {sets rest : List (List String)} {fs : List Fusion}
  {a b : List String}

/-! ### A part of the list -/

/-- **A pair that is joined is joined in every part of the list that has both its sets.** -/
theorem closest?_filter {p : List String → Bool} (h : closest? w sets = some (a, b))
    (ha : p a = true) (hb : p b = true) : closest? w (sets.filter p) = some (a, b) := by
  obtain ⟨hmax, earlier, later, hsplit, hearlier⟩ := closest?_eq_some_iff.mp h
  rw [closest?_eq_some_iff, orderedPairs_filter]
  refine ⟨fun q hq => hmax q (List.mem_of_mem_filter hq),
    earlier.filter (fun q => p q.1 && p q.2), later.filter (fun q => p q.1 && p q.2), ?_,
    fun q hq => hearlier q (List.mem_of_mem_filter hq)⟩
  rw [hsplit, List.filter_append, List.filter_cons_of_pos (by simp [ha, hb])]

/-- A merge within a part is a merge of the part. -/
theorem filter_join_of_within {p : List String → Bool} (h : p (Text.members (a ++ b)) = true) :
    (join sets a b).filter p = join (sets.filter p) a b := by
  rw [join, join, List.filter_append, List.filter_cons_of_pos h, List.filter_nil, others, others,
    List.filter_filter, List.filter_filter]
  simp only [Bool.and_comm]

/-- A merge outside of a part leaves it as it is. -/
theorem filter_join_of_not_within {p : List String → Bool} (ha : p a = false) (hb : p b = false)
    (h : p (Text.members (a ++ b)) = false) : (join sets a b).filter p = sets.filter p := by
  rw [join, List.filter_append, List.filter_cons_of_neg (by simp [h]), List.filter_nil,
    List.append_nil, others, List.filter_filter]
  refine List.filter_congr fun s _ => ?_
  cases hs : p s with
  | false => rfl
  | true =>
      have hsa : s ≠ a := fun heq => by simp [heq, ha] at hs
      have hsb : s ≠ b := fun heq => by simp [heq, hb] at hs
      simp [hsa, hsb]

/-! ### Where a history stands -/

/-- A list without a pair has no history but the empty one. -/
theorem History.eq_nil_of_length_le (hH : History w sets fs rest) (h : sets.length ≤ 1) :
    fs = [] := by
  cases hH with
  | refl => rfl
  | step hclosest _ =>
      rw [closest?_eq_none_iff.mpr h] at hclosest
      cases hclosest

/-- A history that goes to its end starts with the pair to join. -/
theorem History.exists_step (hH : History w sets fs rest) (hrest : rest.length ≤ 1)
    (h : closest? w sets = some (a, b)) :
    ∃ fs', fs = fuse w a b :: fs' ∧ History w (join sets a b) fs' rest := by
  cases hH with
  | refl =>
      rw [closest?_eq_none_iff.mpr hrest] at h
      cases h
  | @step _ _ a' b' fs' hclosest hH =>
      rw [h, Option.some.injEq, Prod.mk.injEq] at hclosest
      obtain ⟨rfl, rfl⟩ := hclosest
      exact ⟨fs', rfl, hH⟩

/-- A merge within a part is the next merge of its history. -/
theorem History.step_within {p : List String → Bool} (hclosest : closest? w sets = some (a, b))
    (ha : p a = true) (hb : p b = true) (hunion : p (Text.members (a ++ b)) = true)
    (hH : History w (sets.filter p) fs rest) (hrest : rest.length ≤ 1) :
    ∃ fs', fs = fuse w a b :: fs' ∧ History w ((join sets a b).filter p) fs' rest := by
  rw [filter_join_of_within hunion]
  exact hH.exists_step hrest (closest?_filter hclosest ha hb)

/-- Once no mean is positive, no fusion is, in any part of the list. -/
theorem History.positive_filter_eq_nil (hw : ∀ x y, w x y = w y x) {p : List String → Bool}
    (hH : History w (sets.filter p) fs rest) (hS : Separated sets)
    (hM : sets.Pairwise fun x y => meanWeight w x y ≤ 0) : positive fs = [] :=
  positive_eq_nil (hH.coupling_le hw (hS.filter p) (hM.filter p))

/-! ### Two parts -/

/-- The sets of a list are **divided** by a part `A` of the classes when each lies within `A`
or outside of it. -/
def Divided (A : String → Bool) (sets : List (List String)) : Prop :=
  ∀ s ∈ sets, s.all A = false → ∀ x ∈ s, A x = false

/-- A union lies within a part exactly when both its sets do. -/
theorem all_union (A : String → Bool) (a b : List String) :
    (Text.members (a ++ b)).all A = (a.all A && b.all A) := by
  rw [Bool.eq_iff_iff, Bool.and_eq_true, List.all_eq_true, List.all_eq_true, List.all_eq_true]
  simp only [Text.mem_members, List.mem_append, or_imp, forall_and]

/-- Single classes are divided. -/
theorem divided_singletons (A : String → Bool) (classes : List String) :
    Divided A (classes.map fun x => [x]) := by
  intro s hs hout x hx
  obtain ⟨y, -, rfl⟩ := List.mem_map.mp hs
  obtain rfl := List.mem_singleton.mp hx
  simpa using hout

/-- A merge of two sets on the same side keeps the list divided. -/
theorem Divided.join {A : String → Bool} (h : Divided A sets) (ha : a ∈ sets) (hb : b ∈ sets)
    (hside : a.all A = b.all A) : Divided A (join sets a b) := by
  intro s hs hout x hx
  rcases List.mem_append.mp hs with hs | hs
  · exact h s (List.mem_of_mem_filter hs) hout x hx
  · obtain rfl := List.mem_singleton.mp hs
    rw [all_union, hside, Bool.and_self] at hout
    rcases List.mem_append.mp (Text.mem_members.mp hx) with hx | hx
    · exact h a ha (hside.trans hout) x hx
    · exact h b hb hout x hx

/-- Across the two sides every mean is zero, when every weight is. -/
theorem Divided.meanWeight_eq_zero {A : String → Bool} (h : Divided A sets)
    (hcross : ∀ x y, A x ≠ A y → w x y = 0) (ha : a ∈ sets) (hb : b ∈ sets)
    (hside : a.all A ≠ b.all A) : meanWeight w a b = 0 := by
  have hsplit : ∀ x ∈ a, ∀ y ∈ b, A x ≠ A y := by
    intro x hx y hy
    cases hin : a.all A with
    | true =>
        rw [hin] at hside
        have hout : b.all A = false := Bool.eq_false_of_not_eq_true hside.symm
        rw [List.all_eq_true.mp hin x hx, h b hb hout y hy]
        simp
    | false =>
        rw [hin] at hside
        have hin' : b.all A = true := Bool.eq_true_of_not_eq_false hside.symm
        rw [List.all_eq_true.mp hin' y hy, h a ha hin x hx]
        simp
  have hzero : meanWeight w a b = meanWeight (fun _ _ => 0) a b :=
    meanWeight_congr fun x hx y hy => hcross x y (hsplit x hx y hy)
  rw [hzero]
  simp [meanWeight, totalWeight]

/-- **A history over two parts without weights between them has their positive fusions.**
Induction on the history. While its couplings are positive each merge is the next one of the
part that it belongs to; after that no history has positive couplings. -/
theorem History.positive_perm (hw : ∀ x y, w x y = w y x) {A : String → Bool}
    (hcross : ∀ x y, A x ≠ A y → w x y = 0) (hH : History w sets fs rest) :
    Separated sets → Divided A sets → rest.length ≤ 1 →
    ∀ {fs₁ fs₂ : List Fusion} {rest₁ rest₂ : List (List String)},
      History w (sets.filter fun s => s.all A) fs₁ rest₁ → rest₁.length ≤ 1 →
      History w (sets.filter fun s => !s.all A) fs₂ rest₂ → rest₂.length ≤ 1 →
      (positive fs).Perm (positive fs₁ ++ positive fs₂) := by
  induction hH with
  | refl sets =>
      intro _ _ hrest fs₁ fs₂ rest₁ rest₂ hH₁ _ hH₂ _
      have hfew : ∀ p : List String → Bool, (sets.filter p).length ≤ 1 := fun p =>
        (List.length_filter_le p sets).trans hrest
      rw [hH₁.eq_nil_of_length_le (hfew _), hH₂.eq_nil_of_length_le (hfew _)]
      rfl
  | @step sets rest a b fs hclosest hH ih =>
      intro hS hD hrest fs₁ fs₂ rest₁ rest₂ hH₁ hrest₁ hH₂ hrest₂
      have hab := mem_of_closest? hclosest
      obtain ⟨ha, hb⟩ := mem_of_mem_orderedPairs hab
      have hbound := pairwise_le_of_closest? hclosest
      by_cases hpos : 0 < (fuse w a b).coupling
      · have hside : a.all A = b.all A := by
          by_contra hside
          exact hpos.ne' (hD.meanWeight_eq_zero hcross ha hb hside)
        have hunion : (Text.members (a ++ b)).all A = b.all A := by
          rw [all_union, hside, Bool.and_self]
        have hS' := hS.join hab
        have hD' := hD.join ha hb hside
        rw [positive_cons_of_pos hpos]
        cases hin : b.all A with
        | true =>
            rw [hin] at hside hunion
            obtain ⟨fs₁', rfl, hH₁'⟩ := hH₁.step_within hclosest hside hin hunion hrest₁
            have hH₂' : History w ((join sets a b).filter fun s => !s.all A) fs₂ rest₂ := by
              rwa [filter_join_of_not_within (by simp only [hside, Bool.not_true])
                (by simp only [hin, Bool.not_true]) (by simp only [hunion, Bool.not_true])]
            rw [positive_cons_of_pos hpos]
            exact (ih hS' hD' hrest hH₁' hrest₁ hH₂' hrest₂).cons _
        | false =>
            rw [hin] at hside hunion
            obtain ⟨fs₂', rfl, hH₂'⟩ := hH₂.step_within hclosest
              (by simp only [hside, Bool.not_false]) (by simp only [hin, Bool.not_false])
              (by simp only [hunion, Bool.not_false]) hrest₂
            have hH₁' : History w ((join sets a b).filter fun s => s.all A) fs₁ rest₁ := by
              rwa [filter_join_of_not_within hside hin hunion]
            rw [positive_cons_of_pos hpos]
            exact ((ih hS' hD' hrest hH₁' hrest₁ hH₂' hrest₂).cons _).trans
              List.perm_middle.symm
      · have hnone : sets.Pairwise fun x y => meanWeight w x y ≤ 0 :=
          hbound.imp fun hxy => hxy.trans (not_lt.mp hpos)
        rw [hH₁.positive_filter_eq_nil hw hS hnone, hH₂.positive_filter_eq_nil hw hS hnone,
          positive_eq_nil ((History.step hclosest hH).coupling_le hw hS hnone)]
        rfl

end ClassSets

/-! ### Two tables -/

/-- A table is the **union** of two others when it has the entries of both, in any order. -/
def IsUnion {ν : Type} (table table₁ table₂ : OrderedMap ClassPair ν) : Prop :=
  table.entries.Perm (table₁.entries ++ table₂.entries)

instance {ν : Type} [DecidableEq ν] (table table₁ table₂ : OrderedMap ClassPair ν) :
    Decidable (IsUnion table table₁ table₂) :=
  inferInstanceAs (Decidable (List.Perm _ _))

namespace IsUnion

variable {ν : Type} {table table₁ table₂ : OrderedMap ClassPair ν}

/-- The two parts of a union may be exchanged. -/
theorem symm (h : IsUnion table table₁ table₂) : IsUnion table table₂ table₁ :=
  List.Perm.trans h List.perm_append_comm

/-- The pairs of a union are those of its parts. -/
theorem mem_keys_iff (h : IsUnion table table₁ table₂) {p : ClassPair} :
    p ∈ table.keys ↔ p ∈ table₁.keys ∨ p ∈ table₂.keys := by
  have hkeys := h.map Prod.fst
  rw [List.map_append] at hkeys
  exact hkeys.mem_iff.trans List.mem_append

/-- The classes of a union are those of its parts. -/
theorem mem_classesIn_iff (h : IsUnion table table₁ table₂) {x : String} :
    x ∈ classesIn table ↔ x ∈ classesIn table₁ ∨ x ∈ classesIn table₂ := by
  simp only [mem_classesIn, h.mem_keys_iff, or_and_right, exists_or]

/-- The union of tables without common classes holds each pair once when both do. -/
theorem eachPairOnce (h : IsUnion table table₁ table₂) (h₁ : EachPairOnce table₁)
    (h₂ : EachPairOnce table₂) (hd : (classesIn table₁).Disjoint (classesIn table₂)) :
    EachPairOnce table := by
  intro a b hne hab hba
  rcases h.mem_keys_iff.mp hab with hab | hab <;> rcases h.mem_keys_iff.mp hba with hba | hba
  · exact h₁ a b hne hab hba
  · exact hd (left_mem_classesIn hab) (right_mem_classesIn hba)
  · exact hd (right_mem_classesIn hba) (left_mem_classesIn hab)
  · exact h₂ a b hne hab hba

/-- The weights of a part of a union are those of the part, from a class outside of
the rest. -/
theorem couplingBetween_eq {weights weights₁ weights₂ : CouplingWeights ℚ}
    (h : IsUnion weights weights₁ weights₂) (honce : EachPairOnce weights)
    (honce₁ : EachPairOnce weights₁) {x y : String} (hx : x ∉ classesIn weights₂) :
    couplingBetween weights₁ x y = couplingBetween weights x y := by
  have hpart : ∀ {e}, e ∈ weights₁.entries → e ∈ weights.entries := fun he =>
    h.mem_iff.mpr (List.mem_append_left _ he)
  rcases exists_mem_or_not_mem_keys weights₁ x y with
    ⟨v, hv⟩ | ⟨v, hv⟩ | ⟨hxy, hyx⟩
  · rw [(couplingBetween_of_mem honce₁ hv).1, (couplingBetween_of_mem honce (hpart hv)).1]
  · rw [(couplingBetween_of_mem honce₁ hv).2, (couplingBetween_of_mem honce (hpart hv)).2]
  · have hxy' : (x, y) ∉ weights.keys := fun hmem =>
      (h.mem_keys_iff.mp hmem).elim hxy fun hother => hx (left_mem_classesIn hother)
    have hyx' : (y, x) ∉ weights.keys := fun hmem =>
      (h.mem_keys_iff.mp hmem).elim hyx fun hother => hx (right_mem_classesIn hother)
    rw [couplingBetween_of_not_mem hxy hyx, couplingBetween_of_not_mem hxy' hyx']

/-- No weight leads from one side of a division to the other, when each table is on
one side. -/
theorem couplingBetween_eq_zero {weights weights₁ weights₂ : CouplingWeights ℚ}
    (h : IsUnion weights weights₁ weights₂) {A : String → Bool}
    (h₁ : ∀ x ∈ classesIn weights₁, A x = true) (h₂ : ∀ x ∈ classesIn weights₂, A x = false)
    {x y : String} (hxy : A x ≠ A y) : couplingBetween weights x y = 0 := by
  have hside : ∀ {a b}, (a, b) ∈ weights.keys → A a = A b := by
    intro a b hab
    rcases h.mem_keys_iff.mp hab with hab | hab
    · rw [h₁ a (left_mem_classesIn hab), h₁ b (right_mem_classesIn hab)]
    · rw [h₂ a (left_mem_classesIn hab), h₂ b (right_mem_classesIn hab)]
  exact couplingBetween_of_not_mem (fun hmem => hxy (hside hmem))
    fun hmem => hxy (hside hmem).symm

end IsUnion

section

open ClassSets Dendrogram

variable {ν : Type} {counts counts₁ counts₂ : OrderedMap ClassPair ν}
  {weights weights₁ weights₂ : CouplingWeights ℚ}

/-- The history of a part of a union is one of the weights of the union. -/
theorem exists_history_of_part (hweights : IsUnion weights weights₁ weights₂)
    (honce : EachPairOnce weights) (honce₁ : EachPairOnce weights₁)
    (hd : (classesIn counts₁).Disjoint (classesIn weights₂)) {root : Option (Dendrogram ℚ)}
    (hroot : buildDendrogram counts₁ weights₁ = .ok root) :
    ∃ fs rest, History (couplingBetween weights) ((classesIn counts₁).map fun x => [x]) fs rest ∧
      rest.length ≤ 1 ∧ (positive (fusionsOf root)).Perm (positive fs) := by
  obtain ⟨fs, rest, hH, hend⟩ := exists_history_of_table counts₁ honce₁ fun _ => false
  obtain ⟨hrest, hperm⟩ := hend root hroot
  have hH' := hH.congr (separated_singletons (nodup_classesIn counts₁))
    (fun _ => subset_of_mem_singletons)
    fun x hx y _ _ => hweights.couplingBetween_eq honce honce₁ (hd hx)
  refine ⟨fs, rest, hH', ?_, hperm.filter _⟩
  rw [hrest, List.length_map]
  exact Option.length_toList_le

/-- The classes of a union within a part are those of the part. -/
theorem filter_classesIn {p : String → Bool} (hcounts : IsUnion counts counts₁ counts₂)
    (h₁ : ∀ x ∈ classesIn counts₁, p x = true) (h₂ : ∀ x ∈ classesIn counts₂, p x = false) :
    (classesIn counts).filter p = classesIn counts₁ := by
  refine Text.eq_of_pairwise_lt ((pairwise_classesIn counts).filter p) (pairwise_classesIn counts₁)
    fun x => ?_
  rw [List.mem_filter, hcounts.mem_classesIn_iff]
  constructor
  · rintro ⟨hx | hx, hp⟩
    · exact hx
    · rw [h₂ x hx] at hp
      cases hp
  · exact fun hx => ⟨.inl hx, h₁ x hx⟩

/-- The dendrogram of a union is built exactly when those of the two tables are. -/
theorem exists_buildDendrogram_union_iff (hcounts : IsUnion counts counts₁ counts₂) :
    (∃ root, buildDendrogram counts weights = .ok root) ↔
      (∃ root₁, buildDendrogram counts₁ weights₁ = .ok root₁) ∧
        ∃ root₂, buildDendrogram counts₂ weights₂ = .ok root₂ := by
  have hz : ((0 : ℚ) == 0) = true := by decide
  simp only [exists_buildDendrogram_iff hz, hcounts.mem_classesIn_iff, or_imp, forall_and]

/-- The positive fusions of a union are those of the two tables together, when the classes of
one lie within a part `A` and those of the other outside of it. -/
theorem positive_perm_of_divided (hcounts : IsUnion counts counts₁ counts₂)
    (hweights : IsUnion weights weights₁ weights₂) (honce : EachPairOnce weights)
    (honce₁ : EachPairOnce weights₁) (honce₂ : EachPairOnce weights₂) {A : String → Bool}
    (hA₁ : ∀ x ∈ classesIn counts₁ ++ classesIn weights₁, A x = true)
    (hA₂ : ∀ x ∈ classesIn counts₂ ++ classesIn weights₂, A x = false)
    {root root₁ root₂ : Option (Dendrogram ℚ)} (hroot : buildDendrogram counts weights = .ok root)
    (hroot₁ : buildDendrogram counts₁ weights₁ = .ok root₁)
    (hroot₂ : buildDendrogram counts₂ weights₂ = .ok root₂) :
    (positive (fusionsOf root)).Perm
      (positive (fusionsOf root₁) ++ positive (fusionsOf root₂)) := by
  rw [List.forall_mem_append] at hA₁ hA₂
  have happart : ∀ {x}, A x = true → A x = false → False := fun htrue hfalse => by
    rw [htrue] at hfalse
    cases hfalse
  obtain ⟨fs, rest, hH, hend⟩ := exists_history_of_table counts honce fun _ => false
  obtain ⟨hrest, hperm⟩ := hend root hroot
  obtain ⟨fs₁, rest₁, hH₁, hrest₁, hperm₁⟩ := exists_history_of_part hweights honce honce₁
    (fun x hx hx' => happart (hA₁.1 x hx) (hA₂.2 x hx')) hroot₁
  obtain ⟨fs₂, rest₂, hH₂, hrest₂, hperm₂⟩ := exists_history_of_part hweights.symm honce honce₂
    (fun x hx hx' => happart (hA₁.2 x hx') (hA₂.1 x hx)) hroot₂
  -- The single classes of each table are its part of those of the union.
  have hpart₁ : ((classesIn counts).map fun x => [x]).filter (fun s => s.all A) =
      (classesIn counts₁).map fun x => [x] := by
    rw [List.filter_map, filter_classesIn hcounts (fun x hx => by simpa using hA₁.1 x hx)
      fun x hx => by simpa using hA₂.1 x hx]
  have hpart₂ : ((classesIn counts).map fun x => [x]).filter (fun s => !s.all A) =
      (classesIn counts₂).map fun x => [x] := by
    rw [List.filter_map, filter_classesIn hcounts.symm (fun x hx => by simpa using hA₂.1 x hx)
      fun x hx => by simpa using hA₁.1 x hx]
  have hfew : rest.length ≤ 1 := by
    rw [hrest, List.length_map]
    exact Option.length_toList_le
  have hsplit := hH.positive_perm (couplingBetween_comm honce)
    (fun x y hxy => hweights.couplingBetween_eq_zero hA₁.2 hA₂.2 hxy)
    (separated_singletons (nodup_classesIn counts)) (divided_singletons A _) hfew
    (hpart₁ ▸ hH₁) hrest₁ (hpart₂ ▸ hH₂) hrest₂
  exact (hperm.filter _).trans (hsplit.trans (hperm₁.symm.append hperm₂.symm))

/-- **Unrelated parts of a table do not influence each other.** Two tables have no class in
common, in their counts or in their weights, and each holds every pair once. Then the fusions
of positive coupling in the dendrogram of their union are those in the two separate dendrograms
together: the same sets of classes are joined, left and right, at the same couplings. -/
theorem positive_fusions_of_unrelated (hcounts : IsUnion counts counts₁ counts₂)
    (hweights : IsUnion weights weights₁ weights₂)
    (hd : (classesIn counts₁ ++ classesIn weights₁).Disjoint
      (classesIn counts₂ ++ classesIn weights₂))
    (honce₁ : EachPairOnce weights₁) (honce₂ : EachPairOnce weights₂) :
    ((∀ p ∈ counts.keys, p.1 ≠ "" ∧ p.2 ≠ "") → ∃ root₁ root₂,
      buildDendrogram counts₁ weights₁ = .ok root₁ ∧
        buildDendrogram counts₂ weights₂ = .ok root₂) ∧
    ∀ root₁ root₂, buildDendrogram counts₁ weights₁ = .ok root₁ →
      buildDendrogram counts₂ weights₂ = .ok root₂ →
      ∃ root, buildDendrogram counts weights = .ok root ∧
        (positive (fusionsOf root)).Perm
          (positive (fusionsOf root₁) ++ positive (fusionsOf root₂)) := by
  refine ⟨fun hnames => ?_, fun root₁ root₂ hroot₁ hroot₂ => ?_⟩
  · have hbuilt : ∃ root, buildDendrogram counts weights = .ok root :=
      (exists_buildDendrogram_iff (by decide)).mpr (ne_empty_of_mem_classesIn hnames)
    obtain ⟨⟨root₁, hroot₁⟩, root₂, hroot₂⟩ := (exists_buildDendrogram_union_iff hcounts).mp hbuilt
    exact ⟨root₁, root₂, hroot₁, hroot₂⟩
  obtain ⟨root, hroot⟩ : ∃ root, buildDendrogram counts weights = .ok root :=
    (exists_buildDendrogram_union_iff hcounts).mpr ⟨⟨root₁, hroot₁⟩, root₂, hroot₂⟩
  have honce := hweights.eachPairOnce honce₁ honce₂ fun x hx hx' =>
    hd (List.mem_append_right _ hx) (List.mem_append_right _ hx')
  exact ⟨root, hroot, positive_perm_of_divided hcounts hweights honce honce₁ honce₂
    (fun x hx => decide_eq_true hx) (fun x hx => decide_eq_false fun hx' => hd hx' hx)
    hroot hroot₁ hroot₂⟩

/-- The second merge of the classes `a`, `b` and `c` and the only one of `d` and `e` have the
same coupling, and the entries of the two tables are mixed in their union. -/
theorem positive_fusions_of_unrelated_of_equal_couplings :
    let counts₁ : OrderedMap ClassPair Int := .ofList [(("a", "b"), 4), (("b", "c"), 2)]
    let counts₂ : OrderedMap ClassPair Int := .ofList [(("e", "d"), 1)]
    let counts : OrderedMap ClassPair Int :=
      .ofList [(("a", "b"), 4), (("e", "d"), 1), (("b", "c"), 2)]
    let weights₁ : CouplingWeights ℚ := .ofList [(("a", "b"), 1 / 2), (("b", "c"), 1 / 4)]
    let weights₂ : CouplingWeights ℚ := .ofList [(("e", "d"), 1 / 8)]
    let weights : CouplingWeights ℚ :=
      .ofList [(("a", "b"), 1 / 2), (("e", "d"), 1 / 8), (("b", "c"), 1 / 4)]
    let ab : Dendrogram ℚ := node "cluster-001" (leaf "a" 0) (leaf "b" 0) (1 / 2) 1
    let abc : Dendrogram ℚ := node "cluster-002" (leaf "c" 0) ab (1 / 8) 2
    let de : Dendrogram ℚ := node "cluster-001" (leaf "d" 0) (leaf "e" 0) (1 / 8) 1
    buildDendrogram counts₁ weights₁ = .ok (some abc) ∧
      buildDendrogram counts₂ weights₂ = .ok (some de) ∧
      ∃ root, buildDendrogram counts weights = .ok root ∧
        (positive (fusionsOf root)).Perm (abc.fusions ++ de.fusions) := by
  intro counts₁ counts₂ counts weights₁ weights₂ weights ab abc de
  have hcounts : IsUnion counts counts₁ counts₂ := by decide
  have hweights : IsUnion weights weights₁ weights₂ := by decide +kernel
  have hd : (classesIn counts₁ ++ classesIn weights₁).Disjoint
      (classesIn counts₂ ++ classesIn weights₂) := by
    have h₁ : classesIn counts₁ ++ classesIn weights₁ = ["a", "b", "c", "a", "b", "c"] := by cbv
    have h₂ : classesIn counts₂ ++ classesIn weights₂ = ["d", "e", "d", "e"] := by cbv
    rw [h₁, h₂]
    simp
  have honce₁ : EachPairOnce weights₁ := by decide
  have honce₂ : EachPairOnce weights₂ := by decide
  have hroot₁ : buildDendrogram counts₁ weights₁ = .ok (some abc) := by
    subst counts₁ weights₁ abc ab
    cbv
  have hroot₂ : buildDendrogram counts₂ weights₂ = .ok (some de) := by
    subst counts₂ weights₂ de
    cbv
  obtain ⟨root, hroot, hperm⟩ :=
    (positive_fusions_of_unrelated hcounts hweights hd honce₁ honce₂).2 _ _ hroot₁ hroot₂
  refine ⟨hroot₁, hroot₂, root, hroot, ?_⟩
  simpa [fusionsOf, positive, abc, ab, de] using hperm

end

end Linkage
