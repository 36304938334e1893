import Mathlib
import Linkage.Pipeline
import Linkage.Proofs.Clustering.ActiveList
import Linkage.Proofs.OrderedPairs

/-!
# Analyses never divide by zero

Exact arithmetic gives a division by zero some value, and what is proved with it holds for any
other value only if no such division is made. `dividing` is exact arithmetic with the value of
a division by zero left open. An analysis has the same result and the same events whatever that
value is: it weighs calls by a positive total, compares clusters that have classes, and takes
the mean of two classes or more.

## Main results

* `normalise?_dividing`: the weights of a table.
* `mergeLoop_dividing`: the merges of clusters that have classes.
* `averagePairwise_dividing`: the average coupling of a set of classes.
* `CutRule.cut_dividing`: the cut of a tree.
* `analyse_dividing`: an analysis.
-/

namespace Linkage

/-- Exact rational scalars that divide by zero in a given way. -/
@[reducible] def dividing (byZero : ℚ → ℚ) : Scalar ℚ :=
  { (inferInstance : Scalar ℚ) with
    div := fun a b => if b = 0 then byZero a else a / b }

section

variable (byZero : ℚ → ℚ)

/-! ### Weights -/

/-- A share of something does not depend on what division by zero gives. -/
theorem share?_dividing {total : Int} (h : total ≠ 0) (count : Int) :
    @share? ℚ (dividing byZero) total count = share? total count := by
  have htotal : (total : ℚ) ≠ 0 := Int.cast_ne_zero.mpr h
  exact congrArg some (if_neg htotal)

/-- A division by zero would be noticed. -/
example : @share? ℚ (dividing fun a => a + 1) 0 2 = some 3 := by decide +kernel

/-- The weights of a table are shares in a positive total. -/
theorem normalise?_dividing (counts : CouplingCounts) (total : Int) :
    @normalise? ℚ (dividing byZero) counts total = normalise? counts total := by
  unfold normalise?
  by_cases h : total ≤ 0
  · rw [if_pos h, if_pos h]
  · have hshare : @share? ℚ (dividing byZero) total = share? total :=
      funext fun count => share?_dividing byZero (fun h0 => h h0.le) count
    rw [if_neg h, if_neg h, hshare]

/-- The summary of the couplings of a graph does not depend on what division by zero gives. -/
theorem CouplingSummary.ofGraph?_dividing (g : CallGraph) :
    @CouplingSummary.ofGraph? ℚ (dividing byZero) g = CouplingSummary.ofGraph? g :=
  congrArg (Option.map _) (normalise?_dividing byZero _ _)

/-! ### Merges -/

/-- The clusters of a list are **sized** when each of them has a class. -/
def Cluster.Sized (clusters : List (Cluster ℚ)) : Prop := ∀ c ∈ clusters, 0 < c.size

namespace Cluster

variable {clusters : List (Cluster ℚ)}

/-- The average link of clusters with classes does not depend on it. -/
theorem averageLink_dividing {c d : Cluster ℚ} (hc : 0 < c.size) (hd : 0 < d.size) (summed : ℚ) :
    @averageLink ℚ (dividing byZero) c d summed = averageLink c d summed := by
  have hpos : ((c.size * d.size : Nat) : ℚ) ≠ 0 := Nat.cast_ne_zero.mpr (Nat.mul_pos hc hd).ne'
  exact if_neg hpos

/-- The candidates of one cluster do not depend on it. -/
theorem candidatesAt_dividing (h : Sized clusters) {c : Cluster ℚ} (hc : 0 < c.size) (i : Nat) :
    @candidatesAt ℚ (dividing byZero) clusters c i = candidatesAt clusters c i := by
  refine List.map_congr_left fun e he => ?_
  have hmem : e.1.1 ∈ clusters :=
    List.fst_mem_of_mem_zipIdx (List.of_mem_zip (List.mem_of_mem_drop he)).1
  rw [averageLink_dividing byZero hc (h _ hmem)]

/-- The candidates of clusters with classes do not depend on it. -/
theorem candidates_dividing (h : Sized clusters) :
    @candidates ℚ (dividing byZero) clusters = candidates clusters :=
  List.flatMap_congr fun e he =>
    candidatesAt_dividing byZero h (h _ (List.fst_mem_of_mem_zipIdx he)) e.2

/-- The pair to join is found without a division by zero. -/
theorem closest?_dividing (h : Sized clusters) :
    @closest? ℚ (dividing byZero) clusters = closest? clusters := by
  unfold closest?
  rw [candidates_dividing byZero h]
  rfl

/-- The clusters of single classes have one class each. -/
theorem Sized.of_singletons? {classes : List String} {matrix : List (List ℚ)}
    (h : singletons? classes matrix = .ok clusters) : Sized clusters := by
  unfold singletons? at h
  generalize classes.zip matrix = entries at h
  induction entries generalizing clusters with
  | nil =>
      obtain rfl : [] = clusters := Except.ok.inj h
      exact fun c hc => absurd hc List.not_mem_nil
  | cons e rest ih =>
      rw [List.mapM_cons] at h
      obtain ⟨c, hc, h⟩ := exists_of_bind_eq_ok h
      obtain ⟨cs, hcs, h⟩ := exists_of_bind_eq_ok h
      obtain ⟨t, -, hc⟩ := exists_of_bind_eq_ok hc
      obtain rfl := Except.ok.inj h
      obtain rfl := Except.ok.inj hc
      exact List.forall_mem_cons.mpr ⟨Nat.one_pos, ih hcs⟩

/-- A merge leaves sized clusters: it joins two of them and changes the size of no other. -/
theorem Sized.of_mergeStep? (h : Sized clusters) {iteration : Nat} {c : Candidate ℚ}
    {next : Event ℚ × List (Cluster ℚ)}
    (hstep : mergeStep? iteration clusters c = .ok next) : Sized next.2 := by
  unfold mergeStep? at hstep
  split at hstep
  · next a b ha hb =>
    obtain ⟨union, -, hstep⟩ := exists_of_bind_eq_ok hstep
    obtain rfl := Except.ok.inj hstep
    intro d hd
    rcases List.mem_append.mp hd with hd | hd
    · obtain ⟨kept, hkept, rfl⟩ := List.mem_map.mp hd
      exact h kept ((dropTwo_sublist _ _ _).subset hkept)
    · obtain rfl := List.mem_singleton.mp hd
      exact Nat.add_pos_left (h a (List.mem_of_getElem? ha)) _
  · cases hstep

end Cluster

/-- **Merges divide by sizes of clusters.** Induction on the merges left, with sized clusters
as the invariant. -/
theorem mergeLoop_dividing (stop : Nat → Bool) (left made : Nat) {clusters : List (Cluster ℚ)}
    (h : Cluster.Sized clusters) :
    @mergeLoop ℚ (dividing byZero) stop left made clusters = mergeLoop stop left made clusters := by
  induction left generalizing made clusters with
  | zero => rfl
  | succ left ih =>
      unfold mergeLoop
      rw [Cluster.closest?_dividing byZero h]
      split
      · rfl
      · cases hc : Cluster.closest? clusters with
        | none => rfl
        | some c =>
            have hsame : @mergeStep? ℚ (dividing byZero) (made + 1) clusters c =
                mergeStep? (made + 1) clusters c := rfl
            simp only [hsame]
            cases hstep : mergeStep? (made + 1) clusters c with
            | error cause => rfl
            | ok next => simp only [ih (made + 1) (h.of_mergeStep? hstep)]

/-- A run of merges does not depend on it. -/
theorem runMerges_dividing (stop : Nat → Bool) (classes : List String) (matrix : List (List ℚ)) :
    @runMerges ℚ (dividing byZero) stop classes matrix = runMerges stop classes matrix := by
  unfold runMerges
  have hsame : @Cluster.singletons? ℚ (dividing byZero) classes matrix =
      Cluster.singletons? classes matrix := rfl
  rw [hsame]
  cases hsingle : Cluster.singletons? classes matrix with
  | error cause => rfl
  | ok clusters =>
      simp only [mergeLoop_dividing byZero stop _ 0 (Cluster.Sized.of_singletons? hsingle)]

/-! ### Cuts -/

/-- The mean over the pairs of a set of classes is taken for two classes or more, which have a
pair. -/
theorem averagePairwise_dividing (classes : List String) (weights : CouplingWeights ℚ) :
    @averagePairwise ℚ (dividing byZero) classes weights = averagePairwise classes weights := by
  unfold averagePairwise
  by_cases hfew : ((Text.members classes).length < 2 || weights.isEmpty) = true
  · simp only [hfew, if_true]
  · have htwo : ¬ (Text.members classes).length < 2 := by
      rw [Bool.or_eq_true, decide_eq_true_eq] at hfew
      exact fun h => hfew (.inl h)
    have hpairs : ((orderedPairs (Text.members classes)).length : ℚ) ≠ 0 := by
      rw [Nat.cast_ne_zero, ← Nat.pos_iff_ne_zero, List.length_pos_iff, Ne, orderedPairs_eq_nil_iff]
      omega
    simp only [hfew]
    exact if_neg hpairs

namespace CutRule

/-- The average of a node does not depend on it. -/
theorem averageOf_dividing (weights : CouplingWeights ℚ) (known : Averages ℚ) (v : Dendrogram ℚ) :
    @averageOf ℚ (dividing byZero) weights known v = averageOf weights known v := by
  unfold averageOf
  rw [averagePairwise_dividing]

/-- What is done with an offered node does not depend on it. -/
theorem offer_dividing (rule : CutRule ℚ) (v : Dendrogram ℚ) (s : CutState ℚ) :
    @offer ℚ (dividing byZero) rule v s = offer rule v s := by
  unfold offer
  rw [averageOf_dividing]

/-- **A cut takes no mean of nothing.** Induction on the tree. -/
theorem cut_dividing (rule : CutRule ℚ) (t : Dendrogram ℚ) (s : CutState ℚ) :
    @cut ℚ (dividing byZero) rule t s = cut rule t s := by
  induction t generalizing s with
  | leaf n c =>
      unfold cut
      rw [offer_dividing]
  | node n l r c k ihl ihr =>
      unfold cut
      simp only [offer_dividing, averageOf_dividing, ihl, ihr]

end CutRule

/-- The modules of a cutter do not depend on it. -/
theorem Cutter.identify_dividing (c : Cutter ℚ) :
    @Cutter.identify ℚ (dividing byZero) c = c.identify := by
  unfold identify
  simp only [CutRule.cut_dividing]
  rfl

/-! ### Analyses -/

/-- The run of a clusterer does not depend on it. -/
theorem Clusterer.run_dividing (c : Clusterer ℚ) :
    @Clusterer.run ℚ (dividing byZero) c = c.run := by
  unfold run
  simp only [runMerges_dividing]

/-- **The analysis of two tables** does not depend on what division by zero gives. -/
theorem analyseTables_dividing (counts : CouplingCounts) (weights : CouplingWeights ℚ)
    (parameters : Parameters ℚ) (stop : Nat → Bool) :
    @analyseTables ℚ (dividing byZero) counts weights parameters stop =
      analyseTables counts weights parameters stop := by
  unfold analyseTables
  simp only [Clusterer.run_dividing, Cutter.identify_dividing]
  rfl

/-- **An analysis never divides by zero**: what it returns and what it reports do not depend on
what a division by zero would give. -/
theorem analyse_dividing (g : CallGraph) (parameters : Parameters ℚ) (stop : Nat → Bool) :
    @analyse ℚ (dividing byZero) g parameters stop = analyse g parameters stop := by
  unfold analyse
  simp only [CouplingSummary.ofGraph?_dividing, analyseTables_dividing]

end

end Linkage
