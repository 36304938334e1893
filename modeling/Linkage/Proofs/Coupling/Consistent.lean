import Mathlib
import Linkage.Proofs.Analysis
import Linkage.Proofs.Division

/-!
# The coupling of a call graph is consistent

What the later stages of an analysis rely on holds for the coupling of every call graph,
whatever its identifiers look like: the pairs are pairs of named classes in increasing order,
the counts are positive and add up to the number of relations of the graph, and the weights are
shares of the whole. So there is never a class without a partner, a dendrogram can always be
built, and nothing is divided by zero.

## Main results

* `totalCalls_tally`: the counts of a tally add up to the number of relations.
* `totalCalls_countCalls`: the total of a call graph is the number of its relations.
* `CouplingSummary.exists_consistent`: every call graph has a `Consistent` coupling.
* `length_classesIn_ne_one`: a table of ordered pairs does not have one class.
* `ofGraph_consistent`: the coupling of a call graph, and what follows for its analysis.
-/

namespace Linkage

/-! ### Totals -/

section Totals

variable {κ : Type} [DecidableEq κ]

/-- Putting a value adds it to the sum and takes away the value it replaces. -/
theorem OrderedMap.sum_put (k : κ) (v : Int) (es : List (κ × Int)) :
    ((put k v es).map Prod.snd).sum + (find k es).getD 0 = (es.map Prod.snd).sum + v := by
  induction es with
  | nil => simp [put, find]
  | cons e rest ih =>
      by_cases h : e.1 = k
      · simp only [put, find, if_pos h, List.map_cons, List.sum_cons, Option.getD_some]
        omega
      · simp only [put, find, if_neg h, List.map_cons, List.sum_cons]
        omega

/-- Storing a value changes the sum of the values by its difference from the value before. -/
theorem OrderedMap.sum_values_insert (m : OrderedMap κ Int) (k : κ) (v : Int) :
    (m.insert k v).values.sum + m.getD k 0 = m.values.sum + v :=
  sum_put k v m.entries

end Totals

/-- **The counts of a tally add up to the number of relations.** Induction on the relations
from the last one on. -/
theorem totalCalls_tally (relations : List Relation) :
    totalCalls (tally relations) = relations.length := by
  rw [totalCalls_eq_sum]
  induction relations using List.reverseRecOn with
  | nil => rfl
  | append_singleton relations r ih =>
      have hinsert := (tally relations).sum_values_insert r.1 ((tally relations).getD r.1 0 + 1)
      rw [tally_append_singleton, List.length_append, List.length_singleton]
      push_cast
      omega

/-- The **relations of a call graph**: pairs of classes in increasing order, each with an
identifier that couples them. -/
def CallGraph.relations (g : CallGraph) : Set Relation :=
  {r | r.1.1 < r.1.2 ∧ g.CoupledBy r.1.1 r.1.2 r.2}

/-- The relations of a call graph are those that are counted. -/
theorem CallGraph.relations_eq (g : CallGraph) :
    g.relations = ((g.relationsWithin (.detect g)).toFinset : Set Relation) := by
  ext ⟨⟨a, b⟩, callee⟩
  rw [List.coe_toFinset]
  exact mem_relationsWithin_detect.symm

/-- The total of a call graph is the number of its relations. -/
theorem totalCalls_countCalls (g : CallGraph) :
    g.relations.Finite ∧ totalCalls (countCalls g) = g.relations.ncard := by
  rw [g.relations_eq, Set.ncard_coe_finset,
    List.toFinset_card_of_nodup (g.nodup_relationsWithin _), countCalls_eq_tally, totalCalls_tally]
  exact ⟨Finset.finite_toSet _, rfl⟩

/-- A call graph without relations has no pairs. -/
theorem totalCalls_countCalls_eq_zero_iff {g : CallGraph} :
    totalCalls (countCalls g) = 0 ↔ (countCalls g).keys = [] := by
  constructor
  · intro htotal
    rw [countCalls_eq_tally, totalCalls_tally, Int.natCast_eq_zero,
      List.length_eq_zero_iff] at htotal
    rw [countCalls_eq_tally, htotal]
    rfl
  · intro hkeys
    rw [totalCalls_eq_sum, OrderedMap.values, List.map_eq_nil_iff.mp hkeys]
    rfl

/-! ### Weights -/

/-- No share is more than the whole. -/
theorem Normalised.le_one {counts : CouplingCounts} {weights : CouplingWeights ℚ}
    (h : Normalised counts weights) : ∀ x ∈ weights.values, x ≤ 1 := by
  intro x hx
  have hkeys : counts.keys ≠ [] := by
    intro hkeys
    have hentries : weights.entries = [] := List.map_eq_nil_iff.mp (h.keys_eq.trans hkeys)
    simp [OrderedMap.values, hentries] at hx
  calc x ≤ weights.values.sum := List.single_le_sum h.nonneg x hx
    _ = 1 := h.sum_eq_one hkeys

/-- Shares of positive counts are positive. -/
theorem pos_of_normalise? {counts : CouplingCounts} {total : Int} {weights : CouplingWeights ℚ}
    (hpos : ∀ n ∈ counts.values, 0 < n) (h : normalise? counts total = some weights) :
    ∀ x ∈ weights.values, 0 < x := by
  by_cases htotal : total ≤ 0
  · rw [normalise?, if_pos htotal] at h
    obtain rfl := Option.some.inj h
    exact fun x hx => absurd hx List.not_mem_nil
  · have htotal := not_le.mp htotal
    rw [normalise?_eq_some counts htotal] at h
    obtain rfl := Option.some.inj h
    intro x hx
    obtain ⟨e, he, rfl⟩ := List.mem_map.mp hx
    obtain ⟨⟨pair, n⟩, hentry, rfl⟩ := List.mem_map.mp he
    exact div_pos (Int.cast_pos.mpr (hpos n (List.mem_map.mpr ⟨_, hentry, rfl⟩)))
      (Int.cast_pos.mpr htotal)

/-! ### Consistent coupling -/

namespace CouplingSummary

/-- The coupling of a call graph is **consistent** when its tables and its total fit together
and fit the graph. -/
structure Consistent (g : CallGraph) (s : CouplingSummary ℚ) : Prop where
  /-- The classes of a pair are in increasing order. -/
  lt : ∀ a b, (a, b) ∈ s.counts.keys → a < b
  /-- The classes of a pair have names. -/
  named : ∀ a b, (a, b) ∈ s.counts.keys → a ≠ "" ∧ b ≠ ""
  /-- No pair is stored in both directions. -/
  once : ∀ a b, (a, b) ∈ s.counts.keys → (b, a) ∉ s.counts.keys
  /-- Every count is at least one. -/
  one_le : ∀ n ∈ s.counts.values, 1 ≤ n
  /-- The total is the number of relations of the graph. -/
  total_eq : g.relations.Finite ∧ s.total = g.relations.ncard
  /-- The two tables have the same pairs in the same order. -/
  keys_eq : s.weights.keys = s.counts.keys
  /-- Every weight is a share of the whole. -/
  share : ∀ x ∈ s.weights.values, 0 < x ∧ x ≤ 1
  /-- The weights add up to one, unless the total is zero. -/
  sum_eq_one : s.total ≠ 0 → s.weights.values.sum = 1
  /-- When the total is zero, both tables are empty. -/
  empty : s.total = 0 → s.counts.keys = [] ∧ s.weights.keys = []

/-- **Every call graph has a consistent coupling**, whatever packages are held when its calls
are counted. -/
theorem exists_consistent (g : CallGraph) :
    ∃ s : CouplingSummary ℚ, ofGraph? g = some s ∧
      (∀ held, countCallsIn held g = (s.counts, s.packages)) ∧ s.Consistent g := by
  have hcounts : ∀ n ∈ (countCalls g).values, 0 < n := fun _ => pos_of_mem_values_countCalls
  obtain ⟨weights, hweights, hnormal⟩ := exists_normalised hcounts
  have hlt : ∀ a b, (a, b) ∈ (countCalls g).keys → a < b := fun a b h =>
    (mem_keys_countCalls.mp h).1
  have hheld : ∀ held, countCallsIn held g = (countCalls g, ProjectPackages.detect g) := by
    intro held
    rw [countCalls_eq_tally, countCallsIn, ProjectPackages.redetect_eq_detect]
  refine ⟨_, by rw [ofGraph?, hweights, Option.map_some], hheld, ?_⟩
  exact
    { lt := hlt
      named := fun a b h => ne_empty_of_mem_keys_countCalls h
      once := fun a b hab hba => lt_asymm (hlt a b hab) (hlt b a hba)
      one_le := hcounts
      total_eq := totalCalls_countCalls g
      keys_eq := hnormal.keys_eq
      share := fun x hx => ⟨pos_of_normalise? hcounts hweights x hx, hnormal.le_one x hx⟩
      sum_eq_one := fun htotal =>
        hnormal.sum_eq_one fun hkeys => htotal (totalCalls_countCalls_eq_zero_iff.mpr hkeys)
      empty := fun htotal =>
        have hkeys := totalCalls_countCalls_eq_zero_iff.mp htotal
        ⟨hkeys, hnormal.keys_eq.trans hkeys⟩ }

end CouplingSummary

/-! ### What follows for an analysis -/

/-- A table whose pairs are in increasing order does not have one class: it has none, or the
two classes of a pair. -/
theorem length_classesIn_ne_one {ν : Type} {table : OrderedMap ClassPair ν}
    (h : ∀ a b, (a, b) ∈ table.keys → a < b) : (classesIn table).length ≠ 1 := by
  intro hone
  obtain ⟨x, hx⟩ := List.length_eq_one_iff.mp hone
  have honly : ∀ y, y ∈ classesIn table → y = x := by simp [hx]
  obtain ⟨⟨a, b⟩, hpair, -⟩ := mem_classesIn.mp (hx ▸ List.mem_singleton_self x)
  have ha := honly a (left_mem_classesIn hpair)
  have hb := honly b (right_mem_classesIn hpair)
  exact absurd (h a b hpair) (by rw [ha, hb]; exact lt_irrefl x)

/-- An analysis that returns has as many classes as its table. -/
theorem AnalysisOf.totalClasses_eq {g : CallGraph} {parameters : Parameters ℚ} {stop : Nat → Bool}
    {a : Analysis ℚ} (h : AnalysisOf g parameters stop a) :
    a.totalClasses = (classesIn (countCalls g)).length := by
  by_cases hsome : classesIn (countCalls g) = []
  · have hrun := h.run_eq
    rw [(run_of_no_classes a.weights stop hsome).1] at hrun
    rw [Analysis.totalClasses, ← Except.ok.inj hrun, hsome]
    rfl
  · obtain ⟨t, ht⟩ := h.exists_dendrogram hsome
    rw [← h.classes_eq ht, Analysis.totalClasses, ht]
    rfl

/-- **The coupling of every call graph is consistent**, whatever packages are held when its
calls are counted. So it does not have one class, its dendrogram is built, and an analysis that
is not stopped returns; no analysis has one class or divides by zero. -/
theorem ofGraph_consistent (g : CallGraph) :
    ∃ s : CouplingSummary ℚ, CouplingSummary.ofGraph? g = some s ∧
      (∀ held, countCallsIn held g = (s.counts, s.packages)) ∧ s.Consistent g ∧
      s.classes.length ≠ 1 ∧ (∃ root, buildDendrogram s.counts s.weights = .ok root) ∧
      ∀ parameters : Parameters ℚ,
        (∃ a, (analyse g parameters fun _ => false).result = .ok a) ∧
        ∀ stop, (∀ a, (analyse g parameters stop).result = .ok a → a.totalClasses ≠ 1) ∧
          ∀ byZero, @analyse ℚ (dividing byZero) g parameters stop = analyse g parameters stop := by
  obtain ⟨s, hs, hheld, hconsistent⟩ := CouplingSummary.exists_consistent g
  have hone := length_classesIn_ne_one hconsistent.lt
  have hcounts : countCalls g = s.counts := congrArg Prod.fst (hheld .none)
  refine ⟨s, hs, hheld, hconsistent, hone, ?_, fun parameters =>
    ⟨exists_analysis g parameters, fun stop => ⟨fun a ha => ?_, fun byZero =>
      analyse_dividing byZero g parameters stop⟩⟩⟩
  · exact (exists_buildDendrogram_iff (by decide)).mpr
      (ne_empty_of_mem_classesIn fun p hp => hconsistent.named p.1 p.2 hp)
  · rw [(analysisOf_of_analyse ha).totalClasses_eq, hcounts]
    exact hone

/-- The class of `p..C.run` is `p..C`, the class of `p.B.` is `p.B`, and `.x` has none. Two
methods of `p.A` call `p.B.run`, one of them twice. Of the three relations two belong to `p.A`
and `p.B`. -/
theorem ofGraph_consistent_of_repeated_dots :
    let g : CallGraph := .ofList [("p..C.run", ["p.A.f"]),
      ("p.A.f", [".x", "p.A.g", "p.B.", "p.B.run", "p.B.run"]), ("p.A.g", ["p.B.run"])]
    ∃ s : CouplingSummary ℚ, CouplingSummary.ofGraph? g = some s ∧ s.Consistent g ∧
      s.counts.entries = [(("p..C", "p.A"), 1), (("p.A", "p.B"), 2)] ∧ s.total = 3 ∧
      s.weights.entries = [(("p..C", "p.A"), 1 / 3), (("p.A", "p.B"), 2 / 3)] ∧
      (∃ root, buildDendrogram s.counts s.weights = .ok root) ∧
      ∃ a, (analyse g (.standard : Parameters ℚ) fun _ => false).result = .ok a ∧
        a.totalClasses ≠ 1 := by
  intro g
  obtain ⟨s, hs, -, hconsistent, -, hroot, hanalyse⟩ := ofGraph_consistent g
  obtain ⟨⟨a, ha⟩, hstop⟩ := hanalyse .standard
  have hvalues : (CouplingSummary.ofGraph? g : Option (CouplingSummary ℚ)).map
      (fun s => (s.counts.entries, s.total, s.weights.entries)) =
        some ([(("p..C", "p.A"), 1), (("p.A", "p.B"), 2)], 3,
          [(("p..C", "p.A"), 1 / 3), (("p.A", "p.B"), 2 / 3)]) := by
    subst g
    cbv
  rw [hs, Option.map_some, Option.some.injEq, Prod.mk.injEq, Prod.mk.injEq] at hvalues
  obtain ⟨hcounts, htotal, hweights⟩ := hvalues
  exact ⟨s, hs, hconsistent, hcounts, htotal, hweights, hroot, a, ha,
    (hstop fun _ => false).1 a ha⟩

end Linkage
