import Mathlib
import Linkage.Proofs.CallGraph.ProjectBoundary
import Linkage.Proofs.Coupling.Sizes

/-!
# Calls that are added

A graph gains calls when its callers stay and each of them calls at least what it called
before. Then its resolver stays too, since that looks at callers only, and its packages can
only become more. So a class of the project stays one, every relation that was counted is still
counted, and a count can only rise.

What was skipped before may be counted afterwards although it is not new: a package that a new
callee brings in can make a class of the project out of one that was not.

## Main results

* `ProjectPackages.contains_mono`: more packages contain more classes.
* `CallGraph.Gains.mem_relationsWithin`: the relations that were counted are still counted.
* `countCallsIn_mono`: counts and totals do not fall.
-/

namespace Linkage

/-- A class that belongs to a project belongs to it when packages are added. -/
theorem ProjectPackages.contains_mono {p p' : ProjectPackages} {name : Option String}
    (h : ∀ q ∈ p.names, q ∈ p'.names) (hname : p.contains name = true) :
    p'.contains name = true := by
  unfold contains at *
  split at hname
  · cases hname
  · obtain ⟨q, hq, hmatch⟩ := List.any_eq_true.mp hname
    exact List.any_eq_true.mpr ⟨q, h q hq, hmatch⟩

namespace CallGraph

/-- A graph **gains calls** when its callers stay and each still calls what it called. -/
structure Gains (g g' : CallGraph) : Prop where
  /-- The callers stay. -/
  mem_keys_iff : ∀ caller, caller ∈ g.keys ↔ caller ∈ g'.keys
  /-- What was called is still called. -/
  calls : ∀ caller callee, g.Calls caller callee → g'.Calls caller callee

namespace Gains

variable {g g' : CallGraph} (h : g.Gains g')

include h

/-- The resolver stays: it looks at callers only. -/
theorem ofGraph_eq : ClassResolver.ofGraph g = ClassResolver.ofGraph g' :=
  ofGraph_congr (callers_congr h.mem_keys_iff)

/-- The packages of the project stay. -/
theorem mem_names_detect {package : String}
    (hpackage : package ∈ (ProjectPackages.detect g).names) :
    package ∈ (ProjectPackages.detect g').names := by
  rw [CallGraph.mem_names_detect, mem_namedIn] at hpackage ⊢
  rw [← h.ofGraph_eq]
  rcases hpackage with ⟨caller, hcaller, hnamed⟩ | ⟨caller, callee, hcalls, hnamed⟩
  · exact .inl ⟨caller, (h.mem_keys_iff caller).mp hcaller, hnamed⟩
  · exact .inr ⟨caller, callee, h.calls caller callee hcalls, hnamed⟩

/-- An identifier of a project class keeps its class. -/
theorem projectClass_eq_some {identifier k : String}
    (hk : projectClass (.ofGraph g) (.detect g) identifier = some k) :
    projectClass (.ofGraph g') (.detect g') identifier = some k := by
  obtain ⟨hresolve, hcontains⟩ := projectClass_eq_some_iff.mp hk
  exact projectClass_eq_some_iff.mpr ⟨h.ofGraph_eq ▸ hresolve,
    ProjectPackages.contains_mono (fun _ => h.mem_names_detect) hcontains⟩

/-- **The relations that were counted** are still counted. -/
theorem mem_relationsWithin {r : Relation} (hr : r ∈ g.relationsWithin (.detect g)) :
    r ∈ g'.relationsWithin (.detect g') := by
  obtain ⟨caller, k, k', hcalls, hk, hk', hne, hpair⟩ := CallGraph.mem_relationsWithin.mp hr
  exact CallGraph.mem_relationsWithin.mpr ⟨caller, k, k', h.calls caller _ hcalls,
    h.projectClass_eq_some hk, h.projectClass_eq_some hk', hne, hpair⟩

end Gains

end CallGraph

/-- The count of a pair does not fall when relations are added, none of which repeat. -/
theorem get?_tally_mono {relations relations' : List Relation} (hnodup : relations.Nodup)
    (h : ∀ r ∈ relations, r ∈ relations') {pair : ClassPair} {n : ℤ}
    (hn : (tally relations).get? pair = some n) :
    ∃ n', (tally relations').get? pair = some n' ∧ n ≤ n' := by
  have hsubset : relationsOf relations pair ⊆ relationsOf relations' pair := fun r hr => by
    rw [relationsOf, List.mem_filter] at hr ⊢
    exact ⟨h r hr.1, hr.2⟩
  rw [get?_tally] at hn
  split at hn
  · cases hn
  · next hne =>
    have hne' : relationsOf relations' pair ≠ [] :=
      fun hnil => hne (List.subset_nil.mp (hnil ▸ hsubset))
    refine ⟨_, by rw [get?_tally, if_neg hne'], ?_⟩
    rw [← Option.some.inj hn]
    exact_mod_cast length_le_of_subset (hnodup.filter _) hsubset

/-- **Adding calls never weakens coupling.** When a graph gains calls, every pair that was
counted is counted at least as often, and the total does not fall, whatever packages are held
before. -/
theorem countCallsIn_mono {g g' : CallGraph} (h : g.Gains g') (held held' : ProjectPackages) :
    (∀ pair n, (countCallsIn held g).1.get? pair = some n →
      ∃ n', (countCallsIn held' g').1.get? pair = some n' ∧ n ≤ n') ∧
    totalCalls (countCallsIn held g).1 ≤ totalCalls (countCallsIn held' g').1 := by
  simp only [countCallsIn, ProjectPackages.redetect_eq_detect]
  have hnodup := g.nodup_relationsWithin (.detect g)
  refine ⟨fun pair n hn => get?_tally_mono hnodup (fun r => h.mem_relationsWithin) hn, ?_⟩
  rw [totalCalls_tally, totalCalls_tally]
  exact_mod_cast length_le_of_subset hnodup fun r hr => h.mem_relationsWithin hr

/-- A caller comes to call a second method of a class, and a class of the package `"."`. The
count of the pair that was there rises, and the call to `super`, which was skipped, is now
counted, since the default package is related to the package that has been added. -/
theorem countCallsIn_mono_of_dotted_package :
    let g : CallGraph := .ofList [("p.A.f", ["p.B.g", "super.run"])]
    let g' : CallGraph := .ofList [("p.A.f", ["..C.m", "p.B.g", "p.B.h", "super.run"])]
    g.Gains g' ∧
      (countCallsIn .none g).1.entries = [(("p.A", "p.B"), 1)] ∧
      (∃ n, (countCallsIn .none g').1.get? ("p.A", "p.B") = some n ∧ 1 ≤ n) ∧
      1 ≤ totalCalls (countCallsIn .none g').1 ∧
      ((countCallsIn .none g').1.get? ("p.A", "super")).isSome = true := by
  intro g g'
  have hgains : g.Gains g' := by
    refine ⟨fun caller => Iff.rfl, ?_⟩
    rintro caller callee ⟨callees, hentry, hcallee⟩
    obtain ⟨rfl, rfl⟩ := Prod.mk.inj (List.mem_singleton.mp hentry)
    have hmore : ["p.B.g", "super.run"] ⊆ ["..C.m", "p.B.g", "p.B.h", "super.run"] := by decide
    exact ⟨_, List.mem_singleton.mpr rfl, hmore hcallee⟩
  have hentries : (countCallsIn .none g).1.entries = [(("p.A", "p.B"), 1)] := by subst g; cbv
  have hget : (countCallsIn .none g).1.get? ("p.A", "p.B") = some 1 := by
    rw [OrderedMap.get?, hentries]
    rfl
  obtain ⟨hcounts, htotal⟩ := countCallsIn_mono hgains .none .none
  refine ⟨hgains, hentries, hcounts _ 1 hget, le_trans ?_ htotal, by subst g'; cbv⟩
  rw [totalCalls, OrderedMap.values, hentries]
  decide

end Linkage
