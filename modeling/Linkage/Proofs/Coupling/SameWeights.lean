import Mathlib
import Linkage.Pipeline
import Linkage.Proofs.Clustering.Growth
import Linkage.Proofs.Coupling.EachPairOnce

/-!
# Tables with the same weights

Two tables of weights are the same symmetric relation when they hold the same pairs with the
same values, whichever way round each pair is written and in whatever order. When both hold
each pair once, they are read alike: a look-up finds the same weight, a cell of the weight
matrix is filled with the same weight, and so are all averages. A table of counts is read for
the classes that it names alone.

So an analysis of tables depends on the classes and the relation, and not on how either is
written down. No law of arithmetic is used: this holds with undefined and unbounded weights.

## Main results

* `SameWeights.couplingBetween_eq`, `SameWeights.weightMatrix_eq`,
  `SameWeights.averagePairwise_eq`: tables with the same weights are read alike.
* `CutRule.cut_congr`: a cut reads the averages of its weights alone.
* `analyseTables_congr`: analyses of tables with the same classes and weights are alike.
-/

namespace Linkage

variable {α : Type}

/-- Two tables hold the **same weights** when the same pairs have the same values in both,
whichever way round a pair is written. -/
def SameWeights (weights weights' : CouplingWeights α) : Prop :=
  ∀ a b x, (((a, b), x) ∈ weights.entries ∨ ((b, a), x) ∈ weights.entries) ↔
    (((a, b), x) ∈ weights'.entries ∨ ((b, a), x) ∈ weights'.entries)

/-- Two tables **name the same classes**, whatever pairs they are in. -/
def SameClasses {ν μ : Type} (table : OrderedMap ClassPair ν)
    (table' : OrderedMap ClassPair μ) : Prop :=
  ∀ x, (∃ p ∈ table.keys, x = p.1 ∨ x = p.2) ↔ ∃ p ∈ table'.keys, x = p.1 ∨ x = p.2

/-- Tables that name the same classes have the same list of classes. -/
theorem SameClasses.classesIn_eq {ν μ : Type} {table : OrderedMap ClassPair ν}
    {table' : OrderedMap ClassPair μ} (h : SameClasses table table') :
    classesIn table = classesIn table' :=
  Text.members_congr fun x => by
    simpa [List.mem_flatMap] using h x

namespace SameWeights

variable {weights weights' : CouplingWeights α}

/-- Tables with the same weights are so both ways. -/
theorem symm (h : SameWeights weights weights') : SameWeights weights' weights :=
  fun a b x => (h a b x).symm

/-- Two classes that are no key of the one table in either direction are none of the other. -/
theorem not_mem_keys (h : SameWeights weights weights') {a b : String} (hab : (a, b) ∉ weights.keys)
    (hba : (b, a) ∉ weights.keys) : (a, b) ∉ weights'.keys ∧ (b, a) ∉ weights'.keys := by
  have hnone : ∀ x, ¬ (((a, b), x) ∈ weights'.entries ∨ ((b, a), x) ∈ weights'.entries) := by
    intro x hx
    rcases (h a b x).mpr hx with hx | hx
    · exact hab (mem_keys_of_mem hx)
    · exact hba (mem_keys_of_mem hx)
  refine ⟨fun hmem => ?_, fun hmem => ?_⟩
  · obtain ⟨⟨_, x⟩, hx, rfl⟩ := List.mem_map.mp hmem
    exact hnone x (.inl hx)
  · obtain ⟨⟨_, x⟩, hx, rfl⟩ := List.mem_map.mp hmem
    exact hnone x (.inr hx)

/-- Tables with the same weights are empty together. -/
theorem isEmpty_eq (h : SameWeights weights weights') : weights.isEmpty = weights'.isEmpty := by
  have hempty : ∀ {w w' : CouplingWeights α}, SameWeights w w' → w.entries = [] →
      w'.entries = [] := by
    intro w w' hsame hnil
    refine List.eq_nil_iff_forall_not_mem.mpr fun ⟨⟨a, b⟩, x⟩ hx => ?_
    simpa [hnil] using (hsame a b x).mpr (.inl hx)
  rw [OrderedMap.isEmpty, OrderedMap.isEmpty, Bool.eq_iff_iff, List.isEmpty_iff, List.isEmpty_iff]
  exact ⟨hempty h, hempty h.symm⟩

/-- Two classes have a value in both tables, in one of the directions, or are no key
of either. -/
theorem exists_mem_or (h : SameWeights weights weights') (a b : String) :
    (∃ x, (((a, b), x) ∈ weights.entries ∨ ((b, a), x) ∈ weights.entries) ∧
      (((a, b), x) ∈ weights'.entries ∨ ((b, a), x) ∈ weights'.entries)) ∨
    ((a, b) ∉ weights.keys ∧ (b, a) ∉ weights.keys) ∧
      (a, b) ∉ weights'.keys ∧ (b, a) ∉ weights'.keys := by
  rcases exists_mem_or_not_mem_keys weights a b with ⟨x, hx⟩ | ⟨x, hx⟩ | ⟨hab, hba⟩
  · exact .inl ⟨x, .inl hx, (h a b x).mp (.inl hx)⟩
  · exact .inl ⟨x, .inr hx, (h a b x).mp (.inr hx)⟩
  · exact .inr ⟨⟨hab, hba⟩, h.not_mem_keys hab hba⟩

variable [Scalar α] (h : SameWeights weights weights') (honce : EachPairOnce weights)
  (honce' : EachPairOnce weights')

include h honce honce'

/-- A look-up finds the same weight. -/
theorem couplingBetween_eq (a b : String) :
    couplingBetween weights a b = couplingBetween weights' a b := by
  rcases h.exists_mem_or a b with ⟨x, hx, hx'⟩ | ⟨⟨hab, hba⟩, hab', hba'⟩
  · have hvalue : ∀ {w : CouplingWeights α}, EachPairOnce w →
        ((a, b), x) ∈ w.entries ∨ ((b, a), x) ∈ w.entries → couplingBetween w a b = x := by
      rintro w hw (hx | hx)
      · exact (couplingBetween_of_mem hw hx).1
      · exact (couplingBetween_of_mem hw hx).2
    rw [hvalue honce hx, hvalue honce' hx']
  · rw [couplingBetween_of_not_mem hab hba, couplingBetween_of_not_mem hab' hba']

/-- A cell of two different classes is filled with the same weight. -/
theorem firstWeight_eq {a b : String} (hne : a ≠ b) :
    firstWeight weights a b = firstWeight weights' a b := by
  rcases h.exists_mem_or a b with ⟨x, hx, hx'⟩ | ⟨⟨hab, hba⟩, hab', hba'⟩
  · have hvalue : ∀ {w : CouplingWeights α}, EachPairOnce w →
        ((a, b), x) ∈ w.entries ∨ ((b, a), x) ∈ w.entries →
          firstWeight w a b = keepNonzero 0 x := by
      rintro w hw (hx | hx)
      · exact firstWeight_of_mem hw hne hx
      · rw [firstWeight_comm, firstWeight_of_mem hw hne.symm hx]
    rw [hvalue honce hx, hvalue honce' hx']
  · rw [firstWeight_of_not_mem hab hba, firstWeight_of_not_mem hab' hba']

/-- The weight matrix over any classes is the same. -/
theorem weightMatrix_eq (classes : List String) :
    weightMatrix classes weights = weightMatrix classes weights' := by
  refine (isSymmetric_weightMatrix classes weights).toIsSquare.ext
    (isSymmetric_weightMatrix classes weights').toIsSquare fun i _ j _ => ?_
  by_cases hnames : ∀ a b, (WeightMatrix.places classes).get? a = some i →
      (WeightMatrix.places classes).get? b = some j → a = b
  · rw [cellAt_eq_zero weights hnames, cellAt_eq_zero weights' hnames]
  · push Not at hnames
    obtain ⟨a, b, hi, hj, hne⟩ := hnames
    rw [cellAt_eq_firstWeight weights hi hj hne, cellAt_eq_firstWeight weights' hi hj hne,
      h.firstWeight_eq honce honce' hne]

/-- Averages are the same. -/
theorem averagePairwise_eq (classes : List String) :
    averagePairwise classes weights = averagePairwise classes weights' := by
  simp only [averagePairwise, h.isEmpty_eq, h.couplingBetween_eq honce honce']

end SameWeights

/-! ### Cuts -/

namespace CutRule

variable [Scalar α] {rule : CutRule α} {weights' : CouplingWeights α}
  (h : ∀ classes, averagePairwise classes rule.weights = averagePairwise classes weights')

include h

/-- Tables with the same weights give a node the same average. -/
theorem averageOf_congr (known : Averages α) (v : Dendrogram α) :
    averageOf rule.weights known v = averageOf weights' known v := by
  simp only [averageOf, h]

/-- Tables with the same weights treat an offered node alike. -/
theorem offer_congr (v : Dendrogram α) (s : CutState α) :
    rule.offer v s = { rule with weights := weights' }.offer v s := by
  simp only [offer, averageOf_congr h]

/-- **A cut reads the averages of its weights alone.** Induction on the tree. -/
theorem cut_congr (t : Dendrogram α) (s : CutState α) :
    rule.cut t s = { rule with weights := weights' }.cut t s := by
  induction t generalizing s with
  | leaf n c =>
      unfold cut
      rw [offer_congr h]
      rfl
  | node n l r c k ihl ihr =>
      unfold cut
      simp only [offer_congr h, averageOf_congr h, ihl, ihr]
      rfl

end CutRule

/-- The outcome of cutting a dendrogram is the same under weights with the same averages. -/
theorem Cutter.identify_congr [Scalar α] {root : Option (Dendrogram α)} {total : Int}
    {threshold : α} {weights weights' : CouplingWeights α}
    (h : ∀ classes, averagePairwise classes weights = averagePairwise classes weights')
    (keepSingletons : Bool) (naming : String) :
    (ofTree root total threshold weights keepSingletons naming).identify.1 =
      (ofTree root total threshold weights' keepSingletons naming).identify.1 := by
  let rule : CutRule α := ⟨Int.fdiv total 2, threshold, weights, keepSingletons, naming⟩
  have hcut : ∀ t s, rule.cut t s = { rule with weights := weights' }.cut t s := fun t s =>
    CutRule.cut_congr h t s
  cases root with
  | none => rfl
  | some t =>
      simp only [identify, ofTree, rule] at hcut ⊢
      rw [hcut]
      rfl

/-! ### Analyses -/

/-- **An analysis of tables depends on their classes and their weights alone**: tables of
counts that name the same classes, and tables of weights that hold the same pairs once each
with the same values, whichever way round and in whatever order, give one analysis, which
differs only in the tables that it carries with it. The reports are the same, and so is what
stops it. -/
theorem analyseTables_congr [Scalar α] {counts counts' : CouplingCounts}
    {weights weights' : CouplingWeights α} (hclasses : SameClasses counts counts')
    (honce : EachPairOnce weights) (honce' : EachPairOnce weights')
    (hweights : SameWeights weights weights') (parameters : Parameters α) (stop : Nat → Bool) :
    (analyseTables counts' weights' parameters stop).events =
      (analyseTables counts weights parameters stop).events ∧
    (analyseTables counts' weights' parameters stop).result =
      (analyseTables counts weights parameters stop).result.map fun a =>
        { a with counts := counts', weights := weights' } := by
  have hclusterer : Clusterer.ofTables counts' weights' stop =
      Clusterer.ofTables counts weights stop := by
    rw [Clusterer.ofTables, Clusterer.ofTables, hclasses.classesIn_eq,
      hweights.weightMatrix_eq honce honce']
  have haverages := hweights.averagePairwise_eq honce honce'
  simp only [analyseTables, hclusterer]
  cases (Clusterer.ofTables counts weights stop).run.1.result with
  | error halt => exact ⟨rfl, rfl⟩
  | ok root =>
      simp only [Cutter.identify_congr haverages]
      exact ⟨rfl, rfl⟩

/-- Two pairs are coupled equally strongly. Written the other way round and in the other order,
and with counts of other pairs of the same classes, they give the same analysis. -/
theorem analyseTables_congr_of_equal_weights :
    let counts : CouplingCounts := .ofList [(("a", "b"), 1), (("c", "d"), 2)]
    let counts' : CouplingCounts := .ofList [(("d", "a"), 7), (("b", "c"), 0)]
    let weights : CouplingWeights Float := .ofList [(("a", "b"), 1 / 4), (("c", "d"), 1 / 4)]
    let weights' : CouplingWeights Float := .ofList [(("d", "c"), 1 / 4), (("b", "a"), 1 / 4)]
    SameClasses counts counts' ∧ EachPairOnce weights ∧ EachPairOnce weights' ∧
      SameWeights weights weights' ∧
      ∃ a, (analyseTables counts weights .standard fun _ => false).result = .ok a ∧
        (analyseTables counts' weights' .standard fun _ => false).result =
          .ok { a with counts := counts', weights := weights' } := by
  intro counts counts' weights weights'
  have hentries : weights.entries = [(("a", "b"), 1 / 4), (("c", "d"), 1 / 4)] := rfl
  have hentries' : weights'.entries = [(("d", "c"), 1 / 4), (("b", "a"), 1 / 4)] := rfl
  have hkeys : counts.keys = [("a", "b"), ("c", "d")] := rfl
  have hkeys' : counts'.keys = [("d", "a"), ("b", "c")] := rfl
  have hclasses : SameClasses counts counts' := fun x => by
    simp only [hkeys, hkeys', List.mem_cons, List.not_mem_nil, or_false, exists_eq_or_imp,
      exists_eq_left]
    tauto
  have honce : EachPairOnce weights := by decide
  have honce' : EachPairOnce weights' := by decide
  have hweights : SameWeights weights weights' := fun x y w => by
    simp only [hentries, hentries', List.mem_cons, List.not_mem_nil, or_false, Prod.mk.injEq]
    tauto
  refine ⟨hclasses, honce, honce', hweights, ?_⟩
  have hnames : ∀ x ∈ classesIn counts, x ≠ "" := ne_empty_of_mem_classesIn (by decide)
  obtain ⟨root, hroot⟩ : ∃ root, buildDendrogram counts weights = .ok root :=
    (exists_buildDendrogram_iff (by decide)).mpr hnames
  obtain ⟨a, ha⟩ : ∃ a, (analyseTables counts weights .standard fun _ => false).result = .ok a := by
    rw [buildDendrogram] at hroot
    simp only [analyseTables, hroot]
    exact ⟨_, rfl⟩
  refine ⟨a, ha, ?_⟩
  rw [(analyseTables_congr hclasses honce honce' hweights .standard fun _ => false).2, ha]
  rfl

end Linkage
