import Mathlib
import Linkage.CallGraph.Packages
import Linkage.Proofs.Lookup
import Linkage.Proofs.Text.Members

/-!
# Call graphs with the same calls

Two call graphs have the same calls when they have the same callers and each caller the same
set of callees; their order and repetitions do not matter. What is read off a call graph does
not tell such graphs apart: the callers in order, the resolver, and the packages of the
project, whatever packages were held before.

## Main results

* `ProjectPackages.redetect_eq`: detection replaces what was held by the packages of the graph.
* `SameCalls.callers_eq`, `SameCalls.ofGraph_eq`, `SameCalls.redetect_eq`: graphs with the same
  calls have the same callers, resolver and packages.
-/

namespace Linkage

namespace ProjectPackages

/-- Packages are added as to a set. -/
theorem foldl_add (packages : List String) (p : ProjectPackages) (h : p.names.Pairwise (· < ·)) :
    packages.foldl add p = ofList (packages ++ p.names) := by
  induction packages generalizing p with
  | nil =>
      have hnames : Text.members p.names = p.names := Text.members_of_pairwise_lt h
      simp [ofList, hnames]
  | cons package rest ih =>
      rw [List.foldl_cons, ih (p.add package) (Text.pairwise_members _)]
      refine congrArg ProjectPackages.mk (Text.members_congr fun q => ?_)
      simp only [add, ofList, List.mem_append, Text.mem_members, List.mem_cons]
      tauto

/-- **Detection replaces what was held** by the packages that are named in the graph. -/
theorem redetect_eq (held : ProjectPackages) (g : CallGraph) :
    held.redetect g = ofList (namedIn g) := by
  rw [redetect, foldl_add _ held.reset List.Pairwise.nil]
  simp [reset, none]

/-- Packages that are detected again are those of the graph, whatever was held. -/
theorem redetect_eq_detect (held : ProjectPackages) (g : CallGraph) :
    held.redetect g = detect g := by
  rw [detect, redetect_eq, redetect_eq]

end ProjectPackages

namespace CallGraph

/-- A caller **calls** an identifier. -/
def Calls (g : CallGraph) (caller callee : String) : Prop :=
  ∃ callees, (caller, callees) ∈ g.entries ∧ callee ∈ callees

/-- Two graphs have the **same calls**: the same callers, each with the same set of callees. -/
def SameCalls (g g' : CallGraph) : Prop :=
  ∀ caller, (g.get? caller).map (fun callees => {c | c ∈ callees}) =
    (g'.get? caller).map fun callees => {c | c ∈ callees}

/-- A caller calls what is stored under it. -/
theorem calls_iff_mem_getD {g : CallGraph} {caller callee : String} :
    g.Calls caller callee ↔ callee ∈ g.getD caller [] := by
  simp only [Calls, ← OrderedMap.get?_eq_some_iff, OrderedMap.getD]
  cases g.get? caller <;> simp

/-- The callers of a graph are its keys. -/
theorem mem_callers {g : CallGraph} {caller : String} : caller ∈ g.callers ↔ caller ∈ g.keys :=
  Text.mem_sorted

/-- The callees of a caller are what it calls. -/
theorem mem_calleesOf {g : CallGraph} {caller callee : String} :
    callee ∈ g.calleesOf caller ↔ g.Calls caller callee := by
  rw [calleesOf, Text.mem_sorted, calls_iff_mem_getD]

/-- Who calls something is a key. -/
theorem Calls.mem_keys {g : CallGraph} {caller callee : String} (h : g.Calls caller callee) :
    caller ∈ g.keys := by
  obtain ⟨callees, hentry, -⟩ := h
  exact List.mem_map.mpr ⟨_, hentry, rfl⟩

/-- A package is named by the class of a caller, or by that of a callee if it is not the
default package. -/
theorem mem_namedIn {g : CallGraph} {package : String} :
    package ∈ ProjectPackages.namedIn g ↔
      (∃ caller ∈ g.keys,
        ProjectPackages.packageIn (.ofGraph g) caller = some package) ∨
      ∃ caller callee, g.Calls caller callee ∧
        ProjectPackages.packageIn (.ofGraph g) callee = some package ∧ package ≠ "" := by
  simp only [ProjectPackages.namedIn, List.mem_flatMap, List.mem_append, Option.mem_toList,
    List.mem_filterMap, Option.filter_eq_some_iff, Bool.not_eq_true', String.isEmpty_eq_false_iff]
  constructor
  · rintro ⟨⟨caller, callees⟩, hentry, hpackage | ⟨callee, hcallee, hpackage, hne⟩⟩
    · exact .inl ⟨caller, List.mem_map.mpr ⟨_, hentry, rfl⟩, hpackage⟩
    · exact .inr ⟨caller, callee, ⟨callees, hentry, hcallee⟩, hpackage, hne⟩
  · rintro (⟨caller, hcaller, hpackage⟩ | ⟨caller, callee, ⟨callees, hentry, hcallee⟩, hpackage⟩)
    · obtain ⟨e, hentry, rfl⟩ := List.mem_map.mp hcaller
      exact ⟨e, hentry, .inl hpackage⟩
    · exact ⟨(caller, callees), hentry, .inr ⟨callee, hcallee, hpackage⟩⟩

section

variable {g g' : CallGraph}

/-- Graphs with the same callers have them in the same order. -/
theorem callers_congr (h : ∀ caller, caller ∈ g.keys ↔ caller ∈ g'.keys) : g.callers = g'.callers :=
  Text.sorted_congr ((List.perm_ext_iff_of_nodup g.distinct g'.distinct).mpr h)

/-- The resolver is read off the callers alone. -/
theorem ofGraph_congr (h : g.callers = g'.callers) :
    ClassResolver.ofGraph g = ClassResolver.ofGraph g' := by
  rw [ClassResolver.ofGraph, ClassResolver.ofGraph, h]

/-- Graphs with the same calls have the same keys. -/
theorem SameCalls.mem_keys_iff (h : SameCalls g g') (caller : String) :
    caller ∈ g.keys ↔ caller ∈ g'.keys := by
  have hsome := congrArg Option.isSome (h caller)
  rw [Option.isSome_map, Option.isSome_map] at hsome
  rw [← OrderedMap.isSome_get?_iff, ← OrderedMap.isSome_get?_iff, hsome]

/-- Graphs with the same calls have the same pairs of caller and callee. -/
theorem SameCalls.calls_iff (h : SameCalls g g') (caller callee : String) :
    g.Calls caller callee ↔ g'.Calls caller callee := by
  simp only [Calls, ← OrderedMap.get?_eq_some_iff]
  have hset := h caller
  cases hg : g.get? caller with
  | none =>
      rw [hg, Option.map_none, eq_comm, Option.map_eq_none_iff] at hset
      simp [hset]
  | some callees =>
      rw [hg, Option.map_some, eq_comm, Option.map_eq_some_iff] at hset
      obtain ⟨callees', hg', heq⟩ := hset
      simpa [hg'] using (Set.ext_iff.mp heq callee).symm

/-- Graphs have the same calls exactly when they have the same callers and the same calls of
each. -/
theorem sameCalls_iff : SameCalls g g' ↔ (∀ caller, caller ∈ g.keys ↔ caller ∈ g'.keys) ∧
    ∀ caller callee, g.Calls caller callee ↔ g'.Calls caller callee := by
  refine ⟨fun h => ⟨h.mem_keys_iff, h.calls_iff⟩, fun ⟨hkeys, hcalls⟩ caller => ?_⟩
  have hkey := hkeys caller
  have hcall := hcalls caller
  simp only [← OrderedMap.isSome_get?_iff, calls_iff_mem_getD, OrderedMap.getD] at hkey hcall
  cases hg : g.get? caller <;> cases hg' : g'.get? caller <;> simp_all

/-- Graphs with the same calls have their callers in one order. -/
theorem SameCalls.callers_eq (h : SameCalls g g') : g.callers = g'.callers :=
  callers_congr h.mem_keys_iff

/-- Graphs with the same calls have the callees of a caller in one order, once each. -/
theorem SameCalls.members_callees_eq (h : SameCalls g g') (caller : String) :
    Text.members (g.getD caller []) = Text.members (g'.getD caller []) :=
  Text.members_congr fun callee => by
    rw [← calls_iff_mem_getD, ← calls_iff_mem_getD, h.calls_iff]

/-- Graphs with the same calls resolve classes alike. -/
theorem SameCalls.ofGraph_eq (h : SameCalls g g') :
    ClassResolver.ofGraph g = ClassResolver.ofGraph g' :=
  ofGraph_congr h.callers_eq

/-- Graphs with the same calls have the same packages, whatever packages are held. -/
theorem SameCalls.redetect_eq (h : SameCalls g g') (held held' : ProjectPackages) :
    held.redetect g = held'.redetect g' := by
  rw [ProjectPackages.redetect_eq, ProjectPackages.redetect_eq]
  refine congrArg ProjectPackages.mk (Text.members_congr fun package => ?_)
  simp only [mem_namedIn, h.ofGraph_eq, h.mem_keys_iff, h.calls_iff]

end

end CallGraph

end Linkage
