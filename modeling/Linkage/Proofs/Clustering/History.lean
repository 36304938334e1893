import Mathlib
import Linkage.Proofs.Clustering.ClassSets
import Linkage.Proofs.Clustering.RunningSums
import Linkage.Proofs.Coupling.EachPairOnce

/-!
# The history of a run

A run over a coupling table makes the merges of a history over its single classes. The
couplings that it records are those of the history, also when it is stopped. A tree that it
returns has the fusions of the history as its inner nodes, and then nothing is left to join.

## Main results

* `Recomputed.closest?_sets`: a pair of trees is chosen by their class sets.
* `Recomputed.exists_history_of_merges`: the merges of recomputation make a history.
* `exists_history_of_run`: so does a run over a table.
* `exists_tree_of_run`: a run over a table with classes that returns has a tree.
* `exists_history_of_table`: the weights of the history are those of a table that holds each
  pair once.
-/

namespace Linkage

open Dendrogram Cluster ClassSets

/-- The **fusions of a dendrogram** that may be missing. -/
def fusionsOf (root : Option (Dendrogram ℚ)) : List Fusion := root.toList.flatMap fusions

/-! ### One merge -/

/-- Where no element repeats, taking out the one at a position takes out that element. -/
theorem eraseIdx_eq_filter {sets : List (List String)} (h : sets.Nodup) {i : Nat}
    {a : List String} (ha : sets[i]? = some a) : sets.eraseIdx i = sets.filter (· != a) := by
  obtain ⟨hi, rfl⟩ := List.getElem?_eq_some_iff.mp ha
  rw [← h.erase_getElem i hi, h.erase_eq_filter]

/-- Taking out two sets by position leaves the others. -/
theorem dropTwo_eq_others {sets : List (List String)} (h : sets.Nodup) {i j : Nat}
    {a b : List String} (hij : i < j) (ha : sets[i]? = some a) (hb : sets[j]? = some b) :
    dropTwo i j sets = others sets a b := by
  have ha' : (sets.eraseIdx j)[i]? = some a := by
    rw [List.getElem?_eraseIdx_of_lt hij, ha]
  rw [dropTwo, eraseIdx_eq_filter (h.sublist (List.eraseIdx_sublist ..)) ha',
    eraseIdx_eq_filter h hb, List.filter_filter, others]
  exact List.filter_congr fun s _ => by simp [bne, Bool.decide_and, Bool.beq_eq_decide_eq]

/-- Joining two trees by position joins their class sets. -/
theorem map_classes_join {ts : List (Dendrogram ℚ)} (hS : Separated (ts.map classes)) {i j : Nat}
    {a b : Dendrogram ℚ} (hij : i < j) (ha : ts[i]? = some a) (hb : ts[j]? = some b) (n : String)
    (c : ℚ) (k : Nat) :
    (dropTwo i j ts ++ [node n a b c k]).map classes =
      ClassSets.join (ts.map classes) a.classes b.classes := by
  have hothers : (dropTwo i j ts).map classes = others (ts.map classes) a.classes b.classes := by
    rw [← dropTwo_map]
    exact dropTwo_eq_others hS.nodup_sets hij (by rw [List.getElem?_map, ha]; rfl)
      (by rw [List.getElem?_map, hb]; rfl)
  rw [List.map_append, hothers]
  rfl

/-- Joining two trees by position adds the fusion of their union. -/
theorem flatMap_fusions_join {ts : List (Dendrogram ℚ)} {i j : Nat} {a b : Dendrogram ℚ}
    (hij : i < j) (ha : ts[i]? = some a) (hb : ts[j]? = some b) (n : String) (c : ℚ) (k : Nat) :
    ((dropTwo i j ts ++ [node n a b c k]).flatMap fusions).Perm
      (⟨(node n a b c k).classes, a.classes, b.classes, c⟩ :: ts.flatMap fusions) := by
  have hsplit := (perm_dropTwo hij ha hb).flatMap_right fusions
  rw [List.flatMap_append, List.flatMap_singleton, fusions_node]
  refine List.perm_middle.trans (List.Perm.cons _ (List.perm_append_comm.trans ?_))
  simpa [List.append_assoc] using hsplit.symm

namespace Recomputed

variable {w : String → String → ℚ}

/-- Trees and their class sets are searched for the same pair. -/
theorem exists_best (w : String → String → ℚ) (ts : List (Dendrogram ℚ)) :
    ∃ best : Option ((Dendrogram ℚ × ℕ) × (Dendrogram ℚ × ℕ)),
      (∀ p, best = some p → p ∈ orderedPairs ts.zipIdx) ∧
      closest? w ts =
        best.map (fun p => ⟨p.1.2, p.2.2, meanWeight w p.1.1.classes p.2.1.classes⟩) ∧
      ClassSets.closest? w (ts.map classes) =
        best.map fun p => (p.1.1.classes, p.2.1.classes) := by
  have hsets : orderedPairs (ts.map classes) =
      (orderedPairs ts.zipIdx).map fun p => (p.1.1.classes, p.2.1.classes) := by
    conv_lhs => rw [← List.zipIdx_map_fst 0 ts, List.map_map, orderedPairs_map]
    rfl
  refine ⟨(orderedPairs ts.zipIdx).find? fun p => (orderedPairs ts.zipIdx).all fun q =>
    decide (meanWeight w q.1.1.classes q.2.1.classes ≤
      meanWeight w p.1.1.classes p.2.1.classes), fun p hp => List.mem_of_find?_eq_some hp, ?_, ?_⟩
  · simp only [closest?, pairs, List.find?_map, List.all_map, Function.comp_def]
  · simp only [ClassSets.closest?, hsets, List.find?_map, List.all_map, Function.comp_def]

/-- **A pair of trees is chosen by their class sets**: these are the sets that the procedure on
class sets joins. -/
theorem closest?_sets {ts : List (Dendrogram ℚ)} {c : Candidate ℚ} (h : closest? w ts = some c) :
    c.first < c.second ∧ ∃ a b, ts[c.first]? = some a ∧ ts[c.second]? = some b ∧
      c.coupling = meanWeight w a.classes b.classes ∧
      ClassSets.closest? w (ts.map classes) = some (a.classes, b.classes) := by
  obtain ⟨best, hmem, hbest, hsets⟩ := exists_best w ts
  rw [h, eq_comm, Option.map_eq_some_iff] at hbest
  obtain ⟨⟨⟨a, i⟩, ⟨b, j⟩⟩, hp, rfl⟩ := hbest
  obtain ⟨ha, hb⟩ := mem_of_mem_orderedPairs (hmem _ hp)
  rw [hp, Option.map_some] at hsets
  exact ⟨rel_of_mem_orderedPairs (pairwise_zipIdx_lt ts 0) (hmem _ hp), a, b,
    List.mem_zipIdx_iff_getElem?.mp ha, List.mem_zipIdx_iff_getElem?.mp hb, rfl, hsets⟩

/-- There is a pair to join as long as there are two trees. -/
theorem closest?_ne_none {ts : List (Dendrogram ℚ)} (hlen : 2 ≤ ts.length) :
    closest? w ts ≠ none := by
  intro hnone
  obtain ⟨best, -, hbest, hsets⟩ := exists_best w ts
  rw [hnone, eq_comm, Option.map_eq_none_iff] at hbest
  rw [hbest, Option.map_none, closest?_eq_none_iff, List.length_map] at hsets
  omega

/-! ### All merges -/

/-- **The merges of recomputation make a history** of the class sets of its trees. Induction on
the merges left; the sets are kept apart, so that taking out trees by position takes out their
sets. -/
theorem exists_history_of_merges (w : String → String → ℚ) (stop : Nat → Bool) (left : Nat) :
    ∀ (made : Nat) (ts : List (Dendrogram ℚ)), ts.length = left + 1 →
      Separated (ts.map classes) →
      ∃ fs rest, History w (ts.map classes) fs rest ∧
        (merges w stop left made ts).couplings = fs.map Fusion.coupling ∧
        ∀ root, (merges w stop left made ts).result = .ok root →
          rest = root.toList.map classes ∧
            (fusionsOf root).Perm (ts.flatMap fusions ++ fs) := by
  induction left with
  | zero =>
      intro made ts hlen _
      obtain ⟨u, rfl⟩ := List.length_eq_one_iff.mp hlen
      refine ⟨[], _, .refl _, rfl, fun root hroot => ?_⟩
      obtain rfl : some u = root := by simpa [merges, finish] using hroot
      simp [fusionsOf]
  | succ left ih =>
      intro made ts hlen hS
      cases hstop : stop (made + 1) with
      | true =>
          refine ⟨[], _, .refl _, by simp [merges, hstop, MergeRun.halted], fun root hroot => ?_⟩
          simp [merges, hstop, MergeRun.halted] at hroot
      | false =>
          have htwo : 2 ≤ ts.length := by omega
          obtain ⟨c, hc⟩ := Option.ne_none_iff_exists'.mp (closest?_ne_none (w := w) htwo)
          obtain ⟨hij, a, b, ha, hb, hmean, hsets⟩ := closest?_sets hc
          have hj : c.second < ts.length := (List.getElem?_eq_some_iff.mp hb).1
          have hjoin := map_classes_join hS hij ha hb (clusterName (made + 1 : Nat)) c.coupling
            (made + 1)
          have hlen' := length_dropTwo hij hj
          obtain ⟨fs, rest, hH, hcouplings, hend⟩ := ih (made + 1) _
            (by rw [List.length_append, List.length_singleton]; omega)
            (hjoin ▸ hS.join (ClassSets.mem_of_closest? hsets))
          rw [hjoin] at hH
          have hloop : merges w stop (left + 1) made ts =
              (merges w stop left (made + 1) (dropTwo c.first c.second ts ++
                [node (clusterName (made + 1 : Nat)) a b c.coupling (made + 1)])).after c.coupling
                (.merged (made + 1) a.name b.name c.coupling (ts.length - 1)) := by
            simp only [merges, hstop, Bool.false_eq_true, if_false, hc, ha, hb, dropTwo]
          refine ⟨_, rest, .step hsets hH, ?_, fun root hroot => ?_⟩
          · rw [hloop, MergeRun.after, hcouplings, List.map_cons, hmean]
            rfl
          · rw [hloop] at hroot
            obtain ⟨hrest, hperm⟩ := hend root hroot
            refine ⟨hrest, hperm.trans ?_⟩
            have hjoined := flatMap_fusions_join hij ha hb (clusterName (made + 1 : Nat))
              c.coupling (made + 1)
            rw [hmean] at hjoined ⊢
            exact (hjoined.append_right fs).trans List.perm_middle.symm

end Recomputed

/-! ### Runs over a table -/

/-- **A run over a table makes the merges of a history over its single classes**, and records
their couplings. When it returns, the fusions of its tree are those of the history, and one set
is left, or none without classes. -/
theorem exists_history_of_run {ν : Type} (counts : OrderedMap ClassPair ν)
    (weights : CouplingWeights ℚ) (stop : Nat → Bool) :
    let clusterer := Clusterer.ofTables counts weights stop
    ∃ fs rest, History clusterer.coupling ((classesIn counts).map fun x => [x]) fs rest ∧
      clusterer.run.1.couplings = fs.map Fusion.coupling ∧
      ∀ root, clusterer.run.1.result = .ok root →
        rest = root.toList.map classes ∧ (fusionsOf root).Perm fs := by
  intro clusterer
  have hz : ((0 : ℚ) == 0) = true := by decide
  by_cases hempty : "" ∈ classesIn counts
  · obtain ⟨hresult, hcouplings⟩ := run_of_empty_name weights stop hempty hz
    refine ⟨[], _, .refl _, hcouplings, fun root hroot => ?_⟩
    rw [hresult] at hroot
    cases hroot
  by_cases hnone : classesIn counts = []
  · obtain ⟨hresult, hcouplings⟩ := run_of_no_classes weights stop hnone
    refine ⟨[], _, .refl _, hcouplings, fun root hroot => ?_⟩
    rw [hresult, Except.ok.injEq] at hroot
    subst hroot
    simp [hnone, fusionsOf]
  have hne : ∀ x ∈ classesIn counts, x ≠ "" := fun x hx hx' => hempty (hx' ▸ hx)
  have hpos : 0 < (classesIn counts).length := List.length_pos_iff.mpr hnone
  have hmerges := @mergeLoop_eq_recomputed _ stop _
    (coupling_ofTables_comm counts weights stop) (nodup_classesIn counts)
    ((classesIn counts).length - 1) 0 [] _ rfl
    (forest_singleClusters (pairwise_classesIn counts) hne hz weights)
    (tracks_singleClusters counts weights stop)
  have hrun := run_ofTables weights stop hne hz hnone
  simp only [hmerges, map_tree_singleClusters] at hrun
  have hsets : ((classesIn counts).map fun x => leaf x (0 : ℚ)).map classes =
      (classesIn counts).map fun x => [x] := by
    rw [List.map_map]
    rfl
  have hfusions : ((classesIn counts).map fun x => leaf x (0 : ℚ)).flatMap fusions = [] := by
    rw [List.flatMap_map]
    simp
  obtain ⟨fs, rest, hH, hcouplings, hend⟩ := Recomputed.exists_history_of_merges
    clusterer.coupling stop ((classesIn counts).length - 1) 0
    ((classesIn counts).map fun x => leaf x 0) (by rw [List.length_map]; omega)
    (hsets ▸ separated_singletons (nodup_classesIn counts))
  rw [hsets] at hH
  rw [hfusions, List.nil_append] at hend
  refine ⟨fs, rest, hH, by rw [hrun]; exact hcouplings, fun root hroot => ?_⟩
  rw [hrun] at hroot
  exact hend root hroot

/-- A run over a table with classes that returns has a tree. -/
theorem exists_tree_of_run {ν : Type} {counts : OrderedMap ClassPair ν}
    (hsome : classesIn counts ≠ []) {weights : CouplingWeights ℚ} {stop : Nat → Bool}
    {root : Option (Dendrogram ℚ)}
    (hroot : (Clusterer.ofTables counts weights stop).run.1.result = .ok root) :
    ∃ t, root = some t := by
  obtain ⟨fs, rest, hH, -, hend⟩ := exists_history_of_run counts weights stop
  obtain ⟨rfl, -⟩ := hend root hroot
  have hrest := hH.ne_nil (by simpa using hsome)
  cases root with
  | none => exact absurd rfl hrest
  | some t => exact ⟨t, rfl⟩

/-- **Over a table that holds each pair once**, the history is one of the weights that a
look-up in the table finds. -/
theorem exists_history_of_table {ν : Type} (counts : OrderedMap ClassPair ν)
    {weights : CouplingWeights ℚ} (h : EachPairOnce weights) (stop : Nat → Bool) :
    ∃ fs rest, History (couplingBetween weights) ((classesIn counts).map fun x => [x]) fs rest ∧
      ∀ root, (Clusterer.ofTables counts weights stop).run.1.result = .ok root →
        rest = root.toList.map classes ∧ (fusionsOf root).Perm fs := by
  obtain ⟨fs, rest, hH, -, hend⟩ := exists_history_of_run counts weights stop
  exact ⟨fs, rest, hH.congr (separated_singletons (nodup_classesIn counts))
    (fun _ => subset_of_mem_singletons)
    fun x hx y hy hne => coupling_ofTables_eq_couplingBetween h stop hx hy hne, hend⟩

end Linkage
