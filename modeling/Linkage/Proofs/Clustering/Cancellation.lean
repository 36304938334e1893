import Mathlib
import Linkage.Proofs.Clustering.Growth

/-!
# Runs that are told to stop

A run asks before each merge whether to stop. Told to stop, it has made the same merges as a
run that is never stopped, up to the one it asked about; told to go on each time, it is that
run.

A clusterer can be run again. All that a run leaves behind is how many answers it used and the
couplings it recorded, and a run reads neither its couplings nor the answers used before. So
whatever was run before and wherever it was stopped, a run is the run of a new clusterer that
is given the answers that are left.

## Main results

* `mergeLoop_congr`: merges depend on the answers that they ask for alone.
* `mergeLoop_of_stop`: merges that are stopped are the first merges of those that are not.
* `Clusterer.run_afterRuns`: a run after other runs is a run of a new clusterer.
* `run_stopped_iff`: when a run is stopped, what it leaves, and what an earlier run changes.
-/

namespace Linkage

open Dendrogram Cluster

variable {α : Type} [Scalar α]

/-! ### Merges -/

section Merges

variable {stop stop' : Nat → Bool} {classes : List String} {series : List α} {left made : Nat}
  {clusters : List (Cluster α)}

/-- Merges depend on the answers that they ask for alone. -/
theorem mergeLoop_congr (h : ∀ k, made < k → k ≤ made + left → stop k = stop' k) :
    mergeLoop stop left made clusters = mergeLoop stop' left made clusters := by
  induction left generalizing made clusters with
  | zero => rfl
  | succ left ih =>
      have hrest : ∀ next : List (Cluster α),
          mergeLoop stop left (made + 1) next = mergeLoop stop' left (made + 1) next := fun next =>
        ih fun k hk hk' => h k (by omega) (by omega)
      simp only [mergeLoop, h (made + 1) (by omega) (by omega), hrest]

/-- Merges that are not stopped ask once before each merge and record one coupling at each. -/
theorem asked_mergeLoop (hnd : classes.Nodup) (hmade : series.length = made)
    (hF : Forest classes series (clusters.map tree)) (hA : Aligned clusters)
    (hlen : clusters.length = left + 1)
    (hgo : ∀ k, made < k → k ≤ made + left → stop k = false) :
    (mergeLoop stop left made clusters).asked = made + left ∧
      (mergeLoop stop left made clusters).couplings.length = left := by
  induction left generalizing made series clusters with
  | zero =>
      obtain ⟨c, rfl⟩ := List.length_eq_one_iff.mp hlen
      exact ⟨rfl, rfl⟩
  | succ left ih =>
      obtain ⟨c, event, next, hloop, hnext, hA', hlen'⟩ :=
        mergeLoop_succ_of_forest hnd hmade hF hA hlen
      have hmade' : (series ++ [c]).length = made + 1 := by simp [hmade]
      obtain ⟨hasked, hlength⟩ :=
        ih hmade' hnext hA' hlen' fun k hk hk' => hgo k (by omega) (by omega)
      rw [hloop stop (hgo (made + 1) (by omega) (by omega))]
      refine ⟨?_, congrArg (· + 1) hlength⟩
      calc (mergeLoop stop left (made + 1) next).asked
          = made + 1 + left := hasked
        _ = made + (left + 1) := by omega

/-- **Merges that are stopped** are the first of those that are not stopped. Induction on the
merges made before, each of which is the same merge with either answers. -/
theorem mergeLoop_of_stop (hnd : classes.Nodup) (hmade : series.length = made)
    (hF : Forest classes series (clusters.map tree)) (hA : Aligned clusters)
    (hlen : clusters.length = left + 1) {merges : Nat} (hlt : merges < left)
    (hgo : ∀ k, made < k → k ≤ made + merges → stop k = false)
    (hstop : stop (made + merges + 1) = true) :
    let whole := mergeLoop (fun _ => false) left made clusters
    mergeLoop stop left made clusters =
      ⟨.error (.cancelled (made + merges + 1) (clusters.length - merges)),
        whole.couplings.take merges, made + merges + 1, whole.events.take merges⟩ := by
  induction merges generalizing left made series clusters with
  | zero =>
      obtain ⟨left, rfl⟩ := Nat.exists_eq_add_one.mpr hlt
      have hnow : stop (made + 1) = true := hstop
      simp only [mergeLoop, hnow, if_true]
      rfl
  | succ merges ih =>
      obtain ⟨left, rfl⟩ := Nat.exists_eq_add_one.mpr (Nat.zero_lt_of_lt hlt)
      obtain ⟨c, event, next, hloop, hnext, hA', hlen'⟩ :=
        mergeLoop_succ_of_forest hnd hmade hF hA hlen
      have hiteration : made + 1 + merges + 1 = made + (merges + 1) + 1 := by omega
      have hremaining : next.length - merges = clusters.length - (merges + 1) := by omega
      have hmade' : (series ++ [c]).length = made + 1 := by simp [hmade]
      have hrest := ih hmade' hnext hA' hlen' (Nat.lt_of_succ_lt_succ hlt)
        (fun k hk hk' => hgo k (by omega) (by omega)) (by rw [hiteration]; exact hstop)
      rw [hiteration, hremaining] at hrest
      rw [hloop stop (hgo (made + 1) (by omega) (by omega)), hloop (fun _ => false) rfl, hrest]
      rfl

end Merges

/-! ### Runs of a clusterer -/

namespace Clusterer

/-- A clusterer after some runs. -/
def afterRuns (c : Clusterer α) (runs : Nat) : Clusterer α := (fun c => c.run.2)^[runs] c

/-- One more run starts from what the earlier runs leave. -/
theorem afterRuns_succ (c : Clusterer α) (runs : Nat) :
    c.afterRuns (runs + 1) = (c.afterRuns runs).run.2 :=
  Function.iterate_succ_apply' _ runs c

/-- Runs leave the classes, the weights and the answers of a clusterer as they are. -/
theorem afterRuns_keeps (c : Clusterer α) (runs : Nat) :
    (c.afterRuns runs).classes = c.classes ∧ (c.afterRuns runs).matrix = c.matrix ∧
      (c.afterRuns runs).stop = c.stop := by
  induction runs with
  | zero => exact ⟨rfl, rfl, rfl⟩
  | succ runs ih => rwa [afterRuns_succ]

variable {ν : Type} {counts : OrderedMap ClassPair ν} {stop : Nat → Bool}

/-- **A run after other runs** is a run of a new clusterer that is given the answers that are
left. -/
theorem run_afterRuns (counts : OrderedMap ClassPair ν) (weights : CouplingWeights α)
    (stop : Nat → Bool) (runs : Nat) :
    let c := (ofTables counts weights stop).afterRuns runs
    c.run.1 = (ofTables counts weights fun k => stop (c.asked + k)).run.1 := by
  intro c
  obtain ⟨hclasses, hmatrix, hstop⟩ : c.classes = classesIn counts ∧
      c.matrix = weightMatrix (classesIn counts) weights ∧ c.stop = stop :=
    (ofTables counts weights stop).afterRuns_keeps runs
  rw [run, hclasses, hmatrix, hstop]
  simp only [run, ofTables, Nat.zero_add]

section Table

variable (weights : CouplingWeights α) (hne : ∀ x ∈ classesIn counts, x ≠ "")
  (hz : ((0 : α) == 0) = true)

include hne hz

/-- A run that is told to go on before each merge is a run that is never stopped. -/
theorem run_of_go (hgo : ∀ k, 1 ≤ k → k < (classesIn counts).length → stop k = false) :
    (ofTables counts weights stop).run.1 = (ofTables counts weights fun _ => false).run.1 := by
  by_cases hnone : classesIn counts = []
  · simp [run, ofTables, runMerges, hnone]
  · have hloop : mergeLoop stop ((classesIn counts).length - 1) 0
        (singleClusters (classesIn counts) weights) =
          mergeLoop (fun _ => false) ((classesIn counts).length - 1) 0
            (singleClusters (classesIn counts) weights) :=
      mergeLoop_congr fun k hk hk' => hgo k hk (by omega)
    rw [run_ofTables weights stop hne hz hnone, run_ofTables weights _ hne hz hnone, hloop]

/-- A run that is never stopped returns, asks once before each merge and records one coupling
at each. -/
theorem run_of_never :
    let whole := (ofTables counts weights fun _ => false).run.1
    (∃ root, whole.result = .ok root) ∧ whole.asked = (classesIn counts).length - 1 ∧
      whole.couplings.length = (classesIn counts).length - 1 := by
  intro whole
  refine ⟨(exists_buildDendrogram_iff hz).mpr hne, ?_⟩
  by_cases hnone : classesIn counts = []
  · simp [whole, run, ofTables, runMerges, hnone]
  · have hpos : 0 < (classesIn counts).length := List.length_pos_iff.mpr hnone
    have hmade : ([] : List α).length = 0 := rfl
    have hlen : (singleClusters (classesIn counts) weights).length =
        (classesIn counts).length - 1 + 1 := by
      rw [length_singleClusters]
      omega
    have hloop := asked_mergeLoop (nodup_classesIn counts) hmade
      (forest_singleClusters (pairwise_classesIn counts) hne hz weights)
      (aligned_singleClusters (classesIn counts) weights) hlen fun _ _ _ => Eq.refl false
    simp only [whole, run_ofTables weights _ hne hz hnone]
    simpa using hloop

/-- A run that is told to stop has made the first merges of a run that is never stopped. -/
theorem run_of_stop {k : Nat} (hk : 1 ≤ k) (hk' : k < (classesIn counts).length)
    (hgo : ∀ j, 1 ≤ j → j < k → stop j = false) (hstop : stop k = true) :
    let whole := (ofTables counts weights fun _ => false).run.1
    (ofTables counts weights stop).run.1 =
      ⟨.error (.cancelled k ((classesIn counts).length - k + 1)), whole.couplings.take (k - 1), k,
        whole.events.take k⟩ := by
  obtain ⟨merges, rfl⟩ := Nat.exists_eq_add_one.mpr hk
  have hsome : classesIn counts ≠ [] := List.length_pos_iff.mp (by omega)
  have hmade : ([] : List α).length = 0 := rfl
  have hlen : (singleClusters (classesIn counts) weights).length =
      (classesIn counts).length - 1 + 1 := by
    rw [length_singleClusters]
    omega
  have hlt : merges < (classesIn counts).length - 1 := by omega
  have hloop := mergeLoop_of_stop (nodup_classesIn counts) hmade
    (forest_singleClusters (pairwise_classesIn counts) hne hz weights)
    (aligned_singleClusters (classesIn counts) weights) hlen hlt
    (fun j hj hj' => hgo j hj (by omega)) (by rw [Nat.zero_add]; exact hstop)
  have hremaining : (classesIn counts).length - merges =
      (classesIn counts).length - (merges + 1) + 1 := by omega
  rw [length_singleClusters, Nat.zero_add, hremaining] at hloop
  rw [run_ofTables weights stop hne hz hsome, run_ofTables weights _ hne hz hsome, hloop]
  rfl

end Table

end Clusterer

/-- **Stopping a run**, after any earlier runs of the clusterer, some of them stopped and
others not. The run is that of a new clusterer that is given the answers that are left. It is
stopped exactly when one of the answers asked for before its merges is to stop. At the first
such answer it stops before the merge of that number, with the clusters that the earlier merges
have left, and has recorded the couplings of these merges, which are those of a run that is
never stopped. Without such an answer it is a run that is never stopped, and returns. -/
theorem run_stopped_iff {ν : Type} (counts : OrderedMap ClassPair ν)
    (weights : CouplingWeights Float) (stop : Nat → Bool)
    (hnames : ∀ p ∈ counts.keys, p.1 ≠ "" ∧ p.2 ≠ "") (earlier : Nat) :
    let size := (classesIn counts).length
    let c := (Clusterer.ofTables counts weights stop).afterRuns earlier
    let answer := fun k => stop (c.asked + k)
    let run := c.run.1
    let whole := (Clusterer.ofTables counts weights fun _ => false).run.1
    run = (Clusterer.ofTables counts weights answer).run.1 ∧
    c.run.2.couplings = run.couplings ∧ c.run.2.asked = c.asked + run.asked ∧
    ((∃ iteration remaining, run.result = .error (.cancelled iteration remaining)) ↔
      ∃ k, 1 ≤ k ∧ k < size ∧ answer k = true) ∧
    (∀ k, 1 ≤ k → k < size → answer k = true → (∀ j, 1 ≤ j → j < k → answer j = false) →
      run = ⟨.error (.cancelled k (size - k + 1)), whole.couplings.take (k - 1), k,
        whole.events.take k⟩ ∧ run.couplings.length = k - 1) ∧
    ((∀ k, 1 ≤ k → k < size → answer k = false) →
      run = whole ∧ run.asked = size - 1 ∧ ∃ root, run.result = .ok root) := by
  intro size c answer run whole
  have hz : ((0 : Float) == 0) = true := by decide
  have hne := ne_empty_of_mem_classesIn hnames
  have hrun : run = (Clusterer.ofTables counts weights answer).run.1 :=
    Clusterer.run_afterRuns counts weights stop earlier
  obtain ⟨hreturns, hasked, hlength⟩ := Clusterer.run_of_never weights hne hz
  have hstopped : ∀ k, 1 ≤ k → k < size → answer k = true →
      (∀ j, 1 ≤ j → j < k → answer j = false) →
      run = ⟨.error (.cancelled k (size - k + 1)), whole.couplings.take (k - 1), k,
        whole.events.take k⟩ := fun k hk hk' hstop hgo =>
    hrun.trans (Clusterer.run_of_stop weights hne hz hk hk' hgo hstop)
  have hgone : (∀ k, 1 ≤ k → k < size → answer k = false) → run = whole := fun hgo =>
    hrun.trans (Clusterer.run_of_go weights hne hz hgo)
  refine ⟨hrun, rfl, rfl, ⟨?_, ?_⟩, fun k hk hk' hstop hgo => ?_, fun hgo => ?_⟩
  · rintro ⟨iteration, remaining, hresult⟩
    by_contra hnone
    have hwhole := hgone fun k hk hk' => by
      simpa using fun hstop => hnone ⟨k, hk, hk', hstop⟩
    obtain ⟨root, hroot⟩ := hreturns
    rw [hwhole, hroot] at hresult
    cases hresult
  · intro hsome
    -- the least of the answers to stop is the one that the run stops at
    obtain ⟨hk, hk', hstop⟩ := Nat.find_spec hsome
    refine ⟨_, _, congrArg MergeRun.result (hstopped _ hk hk' hstop fun j hj hlt => ?_)⟩
    simpa using fun hstop' => Nat.find_min hsome hlt ⟨hj, hlt.trans hk', hstop'⟩
  · have hstopped' := hstopped k hk hk' hstop hgo
    refine ⟨hstopped', ?_⟩
    rw [hstopped', List.length_take, hlength]
    omega
  · rw [hgone hgo]
    exact ⟨rfl, hasked, hreturns⟩

/-- A run over three classes is stopped at its second answer, and the next run of the clusterer
comes to an end as if there had been none before. -/
theorem run_stopped_iff_of_three :
    let counts : OrderedMap ClassPair Nat := .ofList [(("a", "b"), 1), (("b", "c"), 2)]
    let weights : CouplingWeights Float := .ofList [(("a", "b"), 1 / 3), (("b", "c"), 2 / 3)]
    let c := Clusterer.ofTables counts weights fun k => k == 2
    let whole := (Clusterer.ofTables counts weights fun _ => false).run.1
    (∀ p ∈ counts.keys, p.1 ≠ "" ∧ p.2 ≠ "") ∧
      c.run.1.result = .error (.cancelled 2 2) ∧
      c.run.2.couplings = whole.couplings.take 1 ∧ c.run.2.couplings.length = 1 ∧
      c.run.2.run.1 = whole ∧ ∃ root, whole.result = .ok root := by
  intro counts weights c whole
  have hclasses : classesIn counts = ["a", "b", "c"] := by cbv
  have hnames : ∀ p ∈ counts.keys, p.1 ≠ "" ∧ p.2 ≠ "" := by decide
  obtain ⟨-, -, -, -, hstopped, -⟩ := run_stopped_iff counts weights (fun k => k == 2) hnames 0
  obtain ⟨hfirst, hlength⟩ :=
    hstopped 2 (by decide) (by rw [hclasses]; decide) (by decide) (by decide)
  rw [hclasses] at hfirst
  have hasked : c.run.2.asked = 2 := congrArg (0 + MergeRun.asked ·) hfirst
  obtain ⟨-, -, -, -, -, hgone⟩ := run_stopped_iff counts weights (fun k => k == 2) hnames 1
  obtain ⟨hsecond, -, hreturns⟩ := hgone fun k hk _ => by
    have hlater : c.run.2.asked + k ≠ 2 := by omega
    exact beq_eq_false_iff_ne.mpr hlater
  have hwhole : c.run.2.run.1 = whole := hsecond
  exact ⟨hnames, congrArg MergeRun.result hfirst, congrArg MergeRun.couplings hfirst, hlength,
    hwhole, hwhole ▸ hreturns⟩

end Linkage
