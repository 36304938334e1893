import Mathlib
import Linkage.Proofs.Module.Similarity
import Linkage.Proofs.Module.Topmost

/-!
# How much of the weight modules take

Every module with two classes reaches the threshold on average over its own pairs, and no two
modules share a pair. So the threshold times the number of pairs within modules is at most the
total of the weights, which is one for every call graph. Kept singletons have no pairs, and the
limit of the cut does not matter.

A cut of a subtree is followed by `CutRule.PaidFor`: the modules that it adds are paid for by
the pairs of the subtree.

## Main results

* `CutRule.PaidFor.append`: what two children pay for, their parent pays for.
* `CutRule.paidFor_offer`: the pairs of a node pay for the module that an offer makes of it.
* `CutRule.paidFor_cut`: the pairs of a subtree pay for the modules of its cut.
* `Cutter.threshold_mul_pairsWithin_le`: the pairs of a tree pay for all modules of a cutter.
* `threshold_mul_pairsWithin_le_one`: a bound for all modules of an analysis.
-/

namespace Linkage

open Dendrogram

/-- The number of **pairs of classes within modules**. -/
def pairsWithin {α : Type} (modules : List (Module α)) : Nat :=
  (modules.map fun m => m.classCount.choose 2).sum

section Pairs

variable {α : Type}

/-- The pairs within two lists of modules add up. -/
theorem pairsWithin_append (ms ms' : List (Module α)) :
    pairsWithin (ms ++ ms') = pairsWithin ms + pairsWithin ms' := by
  rw [pairsWithin, List.map_append, List.sum_append]
  rfl

/-- The pairs within one module are the pairs of its classes. -/
theorem pairsWithin_singleton (m : Module α) : pairsWithin [m] = m.classCount.choose 2 := by
  simp [pairsWithin]

/-- The pairs of one module are among the pairs within all. -/
theorem choose_le_pairsWithin {ms : List (Module α)} {m : Module α} (hm : m ∈ ms) :
    m.classCount.choose 2 ≤ pairsWithin ms :=
  List.single_le_sum (fun _ _ => Nat.zero_le _) _ (List.mem_map.mpr ⟨m, hm, rfl⟩)

/-- A module with two classes has a pair. -/
theorem length_filter_le_pairsWithin (ms : List (Module α)) :
    (ms.filter fun m => decide (2 ≤ m.classCount)).length ≤ pairsWithin ms := by
  induction ms with
  | nil => simp
  | cons m rest ih =>
      rw [← List.singleton_append, pairsWithin_append, pairsWithin_singleton, List.filter_append,
        List.length_append]
      by_cases htwo : 2 ≤ m.classCount
      · have hpair : 0 < m.classCount.choose 2 := Nat.choose_pos htwo
        simp only [htwo, decide_true, List.filter_cons_of_pos, List.filter_nil,
          List.length_singleton]
        omega
      · simp only [htwo, decide_false, Bool.false_eq_true, not_false_eq_true,
          List.filter_cons_of_neg, List.filter_nil, List.length_nil]
        omega

end Pairs

namespace CutRule

/-- The pairs of `xs` have **paid for** what a cut adds to some modules: the known averages
stay those of their sets of classes, and the threshold times the number of pairs within the
modules added is at most the total of the weights over the pairs of `xs`. -/
structure PaidFor (rule : CutRule ℚ) (xs : List String) (before : List (Module ℚ))
    (s : CutState ℚ) : Prop where
  /-- The known averages are those of their classes. -/
  sound : Sound rule.weights s.averages
  /-- The modules added are paid for. -/
  added : ∃ made, s.modules = before ++ made ∧
    rule.threshold * (pairsWithin made : ℕ) ≤ pairTotal (couplingBetween rule.weights) xs

section

variable {rule : CutRule ℚ} {before : List (Module ℚ)} {s s' : CutState ℚ}

/-- Where nothing is added there is nothing to pay for. -/
theorem PaidFor.of_modules_eq (hw : ∀ x ∈ rule.weights.values, 0 ≤ x) (xs : List String)
    (hs : Sound rule.weights s.averages) (h : s.modules = before) : rule.PaidFor xs before s := by
  refine ⟨hs, [], by rw [h, List.append_nil], ?_⟩
  have hnone : pairsWithin ([] : List (Module ℚ)) = 0 := rfl
  rw [hnone, Nat.cast_zero, mul_zero]
  exact pairTotal_nonneg (couplingBetween_of_forall le_rfl hw) xs

/-- **What two children pay for, their parent pays for**: it has the pairs of both,
and more. -/
theorem PaidFor.append (hw : ∀ x ∈ rule.weights.values, 0 ≤ x) (honce : EachPairOnce rule.weights)
    {n : String} {l r : Dendrogram ℚ} {c : ℚ} {k : Nat} (hd : l.classes.Disjoint r.classes)
    (hl : rule.PaidFor l.classes before s) (hr : rule.PaidFor r.classes s.modules s') :
    rule.PaidFor (node n l r c k).classes before s' := by
  obtain ⟨-, made, hmade, hleft⟩ := hl
  obtain ⟨hsound, made', hmade', hright⟩ := hr
  refine ⟨hsound, made ++ made', by rw [hmade', hmade, List.append_assoc], ?_⟩
  rw [pairsWithin_append, Nat.cast_add, mul_add, pairTotal_node (couplingBetween_comm honce) hd]
  have hacross := totalWeight_nonneg (couplingBetween_of_forall le_rfl hw) l.classes r.classes
  linarith

/-- **The pairs of a node pay for the module that an offer makes of it.** -/
theorem paidFor_offer (hw : ∀ x ∈ rule.weights.values, 0 ≤ x) (hs : Sound rule.weights s.averages)
    (v : Dendrogram ℚ) : rule.PaidFor v.classes s.modules (rule.offer v s) := by
  obtain ⟨hmodules, hsound⟩ := offer_of_sound hs v
  by_cases hreach : rule.threshold ≤ averagePairwise v.classes rule.weights
  · rw [if_pos hreach] at hmodules
    refine ⟨hsound, _, hmodules, ?_⟩
    have hcount : (moduleOf rule.weights rule.naming v).classCount = v.classCount := rfl
    rw [pairsWithin_singleton, hcount, ← averagePairwise_classes_mul_choose]
    exact mul_le_mul_of_nonneg_right hreach (Nat.cast_nonneg _)
  · rw [if_neg hreach, List.append_nil] at hmodules
    exact .of_modules_eq hw v.classes hsound hmodules

/-- **The pairs of a subtree pay for the modules of its cut**, whatever the threshold and the
limit are and whether or not singletons are kept. Induction on the subtree. -/
theorem paidFor_cut (hw : ∀ x ∈ rule.weights.values, 0 ≤ x) (honce : EachPairOnce rule.weights)
    {t : Dendrogram ℚ} (ht : t.WellFormed) :
    ∀ s, Sound rule.weights s.averages → rule.PaidFor t.classes s.modules (rule.cut t s) := by
  induction t with
  | leaf n c =>
      intro s hs
      rw [cut]
      split
      · exact .of_modules_eq hw _ hs rfl
      · split
        · refine ⟨hs, [Module.ofNode rule.naming (leaf n c) 0], rfl, ?_⟩
          simp [pairsWithin_singleton, Module.ofNode, Module.classCount, pairTotal, orderedPairs]
        · exact paidFor_offer hw hs (leaf n c)
  | node n l r c k ihl ihr =>
      intro s hs
      obtain ⟨-, -, hd, hl, hr⟩ := ht
      obtain ⟨-, hknown⟩ := averageOf_of_sound hs (node n l r c k)
      rw [cut]
      split
      · -- At the limit the node is offered as a whole, or dropped.
        simp only
        split
        · exact .of_modules_eq hw _ hs rfl
        · exact paidFor_offer (s := s.report _) hw hs (node n l r c k)
      · simp only
        split
        · exact paidFor_offer (s := { s with averages := _ }) hw hknown (node n l r c k)
        · have hleft := ihl hl (CutState.report { s with averages := _ } (.splitting n
            (averageOf rule.weights s.averages (node n l r c k)).1 rule.threshold)) hknown
          exact .append hw honce hd hleft (ihr hr _ hleft.sound)

end

end CutRule

/-- The pairs of a tree pay for the modules of a cutter, also when it remembers averages of
earlier cuts. -/
theorem Cutter.threshold_mul_pairsWithin_le {c : Cutter ℚ} {t : Dendrogram ℚ}
    (hroot : c.root = some t) (ht : t.WellFormed) (hs : CutRule.Sound c.rule.weights c.averages)
    (hw : ∀ x ∈ c.rule.weights.values, 0 ≤ x) (honce : EachPairOnce c.rule.weights) :
    c.rule.threshold * (pairsWithin c.identify.1.modules : ℕ) ≤
      pairTotal (couplingBetween c.rule.weights) t.classes := by
  obtain ⟨-, made, hmade, hpaid⟩ := CutRule.paidFor_cut hw honce ht
    ⟨[], c.averages, [.cutting c.rule.maxModules c.rule.threshold]⟩ hs
  have hmodules : c.identify.1.modules = made := by
    simp only [Cutter.identify, hroot]
    exact hmade
  rw [hmodules]
  exact hpaid

/-- The threshold times the number of pairs within the modules of an analysis is at
most one. -/
theorem AnalysisOf.threshold_mul_pairsWithin_le {g : CallGraph} {parameters : Parameters ℚ}
    {stop : Nat → Bool} {a : Analysis ℚ} (h : AnalysisOf g parameters stop a) :
    parameters.minCoupling * (pairsWithin a.modules : ℕ) ≤ 1 := by
  rw [h.modules_eq]
  cases hroot : a.dendrogram with
  | none =>
      have hnone : pairsWithin ([] : List (Module ℚ)) = 0 := rfl
      simp [Cutter.identify, Cutter.ofTree, hnone]
  | some t =>
      have hsound : CutRule.Sound a.weights [] := fun e he => absurd he List.not_mem_nil
      have hpaid := Cutter.threshold_mul_pairsWithin_le
        (c := .ofTree (some t) (classTotal (some t)) parameters.minCoupling a.weights
          parameters.keepSingletons parameters.naming)
        rfl (h.wellFormed hroot) hsound h.normalised.nonneg h.eachPairOnce
      rw [← h.pairTotal_root hroot]
      exact hpaid

/-- **What a threshold lets through.** In exact arithmetic the threshold times the number of
pairs within the modules of an analysis is at most one, for every call graph, every threshold
and whether or not singletons are kept. So under the default threshold there are at most ten
modules with two classes or more, and no module has more than five. An analysis that is not
stopped has a result. -/
theorem threshold_mul_pairsWithin_le_one (g : CallGraph) (parameters : Parameters ℚ) :
    (∃ a, (analyse g parameters fun _ => false).result = .ok a) ∧
    ∀ stop a, (analyse g parameters stop).result = .ok a →
      parameters.minCoupling * (pairsWithin a.modules : ℕ) ≤ 1 ∧
      (parameters.minCoupling = Parameters.defaultMinCoupling →
        (a.modules.filter fun m => decide (2 ≤ m.classCount)).length ≤ 10 ∧
          ∀ m ∈ a.modules, m.classCount ≤ 5) := by
  refine ⟨exists_analysis g parameters, fun stop a ha => ?_⟩
  have hbound := (analysisOf_of_analyse ha).threshold_mul_pairsWithin_le
  refine ⟨hbound, fun hdefault => ?_⟩
  have hpairs : pairsWithin a.modules ≤ 10 := by
    have htenth : (Parameters.defaultMinCoupling : ℚ) = 1 / 10 := by decide +kernel
    rw [hdefault, htenth] at hbound
    have hcast : ((pairsWithin a.modules : ℕ) : ℚ) ≤ (10 : ℕ) := by
      push_cast
      linarith
    exact_mod_cast hcast
  refine ⟨(length_filter_le_pairsWithin a.modules).trans hpairs, fun m hm => ?_⟩
  by_contra hmany
  have hsix : Nat.choose 6 2 ≤ m.classCount.choose 2 := Nat.choose_le_choose 2 (by omega)
  have hpair := choose_le_pairsWithin hm
  have hfifteen : Nat.choose 6 2 = 15 := rfl
  omega

/-- Four classes in two coupled pairs: under the default threshold they are one module, and its
six pairs stay within the bound. -/
theorem threshold_mul_pairsWithin_le_one_of_two_pairs :
    let g : CallGraph := .ofList [("p.A.f", ["p.B.run"]), ("p.C.f", ["p.D.run"])]
    ∃ a : Analysis ℚ, (analyse g .standard fun _ => false).result = .ok a ∧
      a.modules.map Module.classes = [["p.A", "p.B", "p.C", "p.D"]] ∧
      (1 / 10 : ℚ) * (pairsWithin a.modules : ℕ) ≤ 1 ∧
      (a.modules.filter fun m => decide (2 ≤ m.classCount)).length ≤ 10 := by
  intro g
  obtain ⟨⟨a, ha⟩, hbounds⟩ := threshold_mul_pairsWithin_le_one g .standard
  obtain ⟨hbound, hdefault⟩ := hbounds _ a ha
  have hmodules : (match (analyse g (.standard : Parameters ℚ) fun _ => false).result with
      | .ok a => a.modules.map Module.classes
      | .error _ => []) = [["p.A", "p.B", "p.C", "p.D"]] := by
    subst g
    cbv
  rw [ha] at hmodules
  exact ⟨a, ha, hmodules, hbound, (hdefault rfl).1⟩

end Linkage
