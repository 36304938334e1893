import Mathlib
import Linkage.Diagnostics.Basic
import Linkage.Proofs.Analysis
import Linkage.Proofs.Module.Cuts
import Linkage.Proofs.Number.Binary64

/-!
# Modules divide the classes of a dendrogram

A cut makes modules of nodes that are apart from each other: none lies below another, and no
two share a class. This holds whether a module is made of a node that reaches the threshold, of
an inner node at the limit, or of a class that is kept, and for every threshold, also an
undefined one.

So the classes of the dendrogram divide into those of its modules and those of none. The sizes
of the modules add up to the number of classes assigned, and coverage, the share of these in
all classes, is what the classes left over leave of the total. It is a share in exact
arithmetic, and in floating point for any number of classes that has at most 53 bits.

## Main results

* `identifyModules_apart`: the nodes that modules are made of.
* `Partitioned`, `partitioned_of_analyseTables`: an analysis divides the classes of its
  dendrogram.
* `Partitioned.coverage_eq`: coverage is the share of the classes assigned.
* `modules_partition`: all of it, over every tree and every table.
-/

namespace Linkage

open Dendrogram

variable {α : Type}

/-! ### Classes assigned and left over -/

/-- The classes of a dendrogram that may be missing. -/
def classesOf (root : Option (Dendrogram α)) : List String := root.toList.flatMap classes

/-- A root has as many classes as are counted. -/
theorem length_classesOf (root : Option (Dendrogram α)) :
    (classesOf root).length = classTotal root := by
  cases root <;> simp [classesOf, classTotal, classCount]

/-- No class of a root is listed twice. -/
theorem nodup_classesOf (root : Option (Dendrogram α)) : (classesOf root).Nodup := by
  cases root with
  | none => exact List.nodup_nil
  | some t => simpa [classesOf] using t.nodup_classes

/-- An analysis is **partitioned** when its modules have classes of the dendrogram, and no two
of them share one. -/
structure Partitioned (a : Analysis α) : Prop where
  /-- The classes of a module do not repeat. -/
  nodup : ∀ m ∈ a.modules, m.classes.Nodup
  /-- No two modules share a class. -/
  disjoint : a.modules.Pairwise fun m m' => m.classes.Disjoint m'.classes
  /-- The classes of the modules are classes of the dendrogram. -/
  subset : ∀ m ∈ a.modules, m.classes ⊆ classesOf a.dendrogram

namespace Partitioned

variable {a : Analysis α} (h : Partitioned a)
include h

/-- The sizes of the modules add up to the number of classes assigned. -/
theorem sum_classCount : (a.modules.map Module.classCount).sum = a.assignedClasses.length := by
  have hperm : a.assignedClasses.Perm (a.modules.flatMap Module.classes) :=
    Text.members_perm (List.nodup_flatMap.mpr ⟨h.nodup, h.disjoint⟩)
  rw [hperm.length_eq, List.length_flatMap]
  rfl

/-- **The classes of the dendrogram** are those assigned and those left over. -/
theorem assigned_append_unassigned_perm :
    (a.assignedClasses ++ a.unassignedClasses).Perm (classesOf a.dendrogram) := by
  have hleft : a.unassignedClasses =
      (classesOf a.dendrogram).filter fun k => !a.assignedClasses.contains k := by
    rw [Analysis.unassignedClasses]
    cases a.dendrogram <;> simp [classesOf]
  have hassigned : a.assignedClasses.Perm
      ((classesOf a.dendrogram).filter a.assignedClasses.contains) := by
    refine (List.perm_ext_iff_of_nodup (Text.nodup_members _)
      ((nodup_classesOf a.dendrogram).filter _)).mpr fun x => ?_
    rw [List.mem_filter, List.contains_iff_mem]
    refine ⟨fun hx => ⟨?_, hx⟩, And.right⟩
    obtain ⟨m, hm, hxm⟩ := List.mem_flatMap.mp (Text.mem_members.mp hx)
    exact h.subset m hm hxm
  rw [hleft]
  exact (hassigned.append_right _).trans (List.filter_append_perm _ _)

/-- The classes assigned are as many as the classes left over leave of the total. -/
theorem length_assignedClasses :
    a.assignedClasses.length = a.totalClasses - a.unassignedClasses.length := by
  have hlength := h.assigned_append_unassigned_perm.length_eq
  rw [List.length_append, length_classesOf] at hlength
  rw [Analysis.totalClasses]
  omega

/-- **Coverage** is the share of the total that is not left over. -/
theorem coverage_eq [Scalar α] : (Diagnostics.ofAnalysis a).coverage =
    if a.totalClasses = 0 then 0
    else ((a.totalClasses - a.unassignedClasses.length : Nat) : α) / (a.totalClasses : α) := by
  rw [Diagnostics.ofAnalysis, h.length_assignedClasses]
  rfl

/-- In exact arithmetic coverage is a share. -/
theorem coverage_isShare [Scalar α] [ExactScalar α] :
    IsShare (Diagnostics.ofAnalysis a).coverage := by
  rw [h.coverage_eq]
  split
  · exact isShare_zero
  · next htotal =>
    exact isShare_div (natCast_nonneg _) (ExactScalar.natCast_le (Nat.sub_le _ _))
      (Nat.pos_of_ne_zero htotal)

omit h in
/-- In floating point coverage is a share when the number of classes has at most 53 bits. -/
theorem coverage_isShare_float {a : Analysis Float} (h : Partitioned a)
    (hlt : a.totalClasses < 2 ^ 53) : IsShare (Diagnostics.ofAnalysis a).coverage := by
  rw [h.coverage_eq]
  split
  · exact isShare_of_unpack_zero rfl
  · next htotal =>
    exact isShare_natCast_div (Nat.sub_le _ _) (Nat.pos_of_ne_zero htotal) hlt

end Partitioned

/-! ### Nodes apart from each other -/

/-- Nodes that share no class are not below each other. -/
theorem Dendrogram.not_mem_nodes_of_disjoint {u v : Dendrogram α}
    (h : u.classes.Disjoint v.classes) :
    u ∉ v.nodes := fun hmem => by
  obtain ⟨x, hx⟩ := List.exists_mem_of_ne_nil _ u.classes_ne_nil
  exact h hx (classes_subset_of_mem_nodes hmem hx)

variable [Scalar α]

/-- **The nodes that modules are made of** come in the order of the walk, each once, and none
lies below another. The classes of the modules are classes of the tree, at least one each, and
no two modules share one. -/
theorem identifyModules_apart {root : Option (Dendrogram α)} (hroot : ∀ t, root = some t → Built t)
    (weights : CouplingWeights α) (threshold : α) (total : Option Int) (keepSingletons : Bool)
    (naming : String) :
    let found := identifyModules root weights threshold total keepSingletons naming
    (∃ vs : List (Dendrogram α), found = vs.map (moduleOf weights naming) ∧
      vs.Sublist (root.toList.flatMap nodes) ∧ vs.Nodup ∧
      vs.Pairwise fun u v => u ∉ v.nodes ∧ v ∉ u.nodes) ∧
    (found.Pairwise fun m m' => m.classes.Disjoint m'.classes) ∧
    ∀ m ∈ found, m.classes.Nodup ∧ m.classes ≠ [] ∧ m.classes ⊆ classesOf root := by
  intro found
  cases root with
  | none =>
      exact ⟨⟨[], rfl, List.nil_sublist _, List.nodup_nil, List.Pairwise.nil⟩,
        List.Pairwise.nil, fun m hm => absurd hm List.not_mem_nil⟩
  | some t =>
      obtain ⟨vs, hmodules, hsub, happart⟩ := Cutter.exists_apart (hroot t rfl).wellFormed
        (total.getD (classTotal (some t))) threshold weights keepSingletons naming
      have hfound : found = vs.map (moduleOf weights naming) := hmodules
      have hbelow : vs.Pairwise fun u v => u ∉ v.nodes ∧ v ∉ u.nodes :=
        happart.imp fun h => ⟨not_mem_nodes_of_disjoint h, not_mem_nodes_of_disjoint h.symm⟩
      have hnodup : vs.Nodup := by
        refine hbelow.imp ?_
        rintro u _ h rfl
        exact h.1 u.self_mem_nodes
      refine ⟨⟨vs, hfound, by simpa using hsub, hnodup, hbelow⟩, ?_, ?_⟩
      · rw [hfound, List.pairwise_map]
        exact happart
      · rw [hfound]
        refine List.forall_mem_map.mpr fun v hv => ⟨v.nodup_classes, v.classes_ne_nil, ?_⟩
        simpa [classesOf, moduleOf, Module.ofNode] using classes_subset_of_mem_nodes
          (hsub.subset hv)

/-- **An analysis of tables is partitioned**, whatever the weights and the threshold are. -/
theorem partitioned_of_analyseTables (hz : ((0 : α) == 0) = true) {counts : CouplingCounts}
    {weights : CouplingWeights α} {parameters : Parameters α} {stop : Nat → Bool} {a : Analysis α}
    (h : (analyseTables counts weights parameters stop).result = .ok a) : Partitioned a := by
  obtain ⟨-, -, hrun, hmodules⟩ := stages_of_analyseTables h
  have hroot : ∀ t, a.dendrogram = some t → Built t := fun t ht =>
    ((forest_of_run hz (ht ▸ hrun)).wellFormed t (by simp)).built
  have hfound : a.modules = identifyModules a.dendrogram weights parameters.minCoupling none
    parameters.keepSingletons parameters.naming := hmodules
  obtain ⟨-, hdisjoint, hclasses⟩ := identifyModules_apart hroot weights parameters.minCoupling none
    parameters.keepSingletons parameters.naming
  rw [← hfound] at hdisjoint hclasses
  exact ⟨fun m hm => (hclasses m hm).1, hdisjoint, fun m hm => (hclasses m hm).2.2⟩

/-- **Modules divide the classes of a dendrogram**, for every valid tree, every table of
weights and every threshold, kept singletons and a limit included. The modules are made of
distinct nodes, none below another, and have disjoint sets of classes of the tree, none empty.
So in every analysis the sizes of the modules add up to the number of classes assigned, the
classes of the dendrogram are those assigned and those left over, each once, and coverage is
the share that the latter leave of the total, zero without classes. Coverage lies between zero
and one. -/
theorem modules_partition :
    (∀ {α : Type} [Scalar α] (root : Option (Dendrogram α)) (weights : CouplingWeights α)
      (threshold : α)
        (total : Option Int) (keepSingletons : Bool) (naming : String),
      (∀ t, root = some t → Built t) →
      let found := identifyModules root weights threshold total keepSingletons naming
      (∃ vs : List (Dendrogram α), found = vs.map (moduleOf weights naming) ∧
        vs.Sublist (root.toList.flatMap nodes) ∧ vs.Nodup ∧
        vs.Pairwise fun u v => u ∉ v.nodes ∧ v ∉ u.nodes) ∧
      (found.Pairwise fun m m' => m.classes.Disjoint m'.classes) ∧
      ∀ m ∈ found, m.classes.Nodup ∧ m.classes ≠ [] ∧ m.classes ⊆ classesOf root) ∧
    (∀ {α : Type} [Scalar α] (counts : CouplingCounts) (weights : CouplingWeights α)
        (parameters : Parameters α) (stop : Nat → Bool) (a : Analysis α), ((0 : α) == 0) = true →
      (analyseTables counts weights parameters stop).result = .ok a →
      (a.modules.map Module.classCount).sum = a.assignedClasses.length ∧
      (a.assignedClasses ++ a.unassignedClasses).Perm (classesOf a.dendrogram) ∧
      (a.assignedClasses ++ a.unassignedClasses).Nodup ∧
      (Diagnostics.ofAnalysis a).coverage =
        (if a.totalClasses = 0 then 0
        else ((a.totalClasses - a.unassignedClasses.length : Nat) : α) / (a.totalClasses : α)) ∧
      (ExactScalar α → IsShare (Diagnostics.ofAnalysis a).coverage)) ∧
    ∀ (counts : CouplingCounts) (weights : CouplingWeights Float) (parameters : Parameters Float)
        (stop : Nat → Bool) (a : Analysis Float),
      (analyseTables counts weights parameters stop).result = .ok a → a.totalClasses < 2 ^ 53 →
      IsShare (Diagnostics.ofAnalysis a).coverage := by
  refine ⟨fun root weights threshold total keepSingletons naming hroot =>
    identifyModules_apart hroot weights threshold total keepSingletons naming, ?_, ?_⟩
  · intro α _ counts weights parameters stop a hz h
    have hpart := partitioned_of_analyseTables hz h
    have hperm := hpart.assigned_append_unassigned_perm
    exact ⟨hpart.sum_classCount, hperm, hperm.nodup_iff.mpr (nodup_classesOf _), hpart.coverage_eq,
      fun _ => hpart.coverage_isShare⟩
  · intro counts weights parameters stop a h hlt
    exact (partitioned_of_analyseTables (by decide) h).coverage_isShare_float hlt

/-- In floating point, with a weight that is undefined and singletons kept, the modules of
three classes are disjoint, and coverage lies between zero and one. -/
theorem modules_partition_of_undefined_weight :
    let counts : CouplingCounts := .ofList [(("a", "b"), 1), (("b", "c"), 2)]
    let weights : CouplingWeights Float := .ofList [(("a", "b"), 0 / 0), (("b", "c"), 1 / 2)]
    let parameters : Parameters Float := ⟨1 / 4, true, "module"⟩
    ((0 : Float) == 0) = true ∧ ∃ t a, Built t ∧
      (analyseTables counts weights parameters fun _ => false).result = .ok a ∧
      a.dendrogram = some t ∧ a.totalClasses = 3 ∧
      ((identifyModules (some t) weights (1 / 4) none true "module").Pairwise fun m m' =>
        m.classes.Disjoint m'.classes) ∧
      (a.assignedClasses ++ a.unassignedClasses).Perm ["a", "b", "c"] ∧
      IsShare (Diagnostics.ofAnalysis a).coverage := by
  intro counts weights parameters
  have hz : ((0 : Float) == 0) = true := by decide
  have hclasses : classesIn counts = ["a", "b", "c"] := by cbv
  obtain ⟨t, hrun, hforest⟩ : ∃ t,
      (Clusterer.ofTables counts weights fun _ => false).run.1.result = .ok (some t) ∧
        Forest _ _ [t] :=
    run_forest weights (by rw [hclasses]; decide) hz (by rw [hclasses]; decide) fun _ _ _ => rfl
  have ht : Built t := (hforest.wellFormed t (by simp)).built
  have hleaves : t.classes = ["a", "b", "c"] := (classes_of_run hz hrun).trans hclasses
  obtain ⟨a, ha, hroot⟩ : ∃ a,
      (analyseTables counts weights parameters fun _ => false).result = .ok a ∧
      a.dendrogram = some t := by
    rw [analyseTables_result, hrun]
    exact ⟨_, rfl, rfl⟩
  have htotal : a.totalClasses = 3 := by
    rw [Analysis.totalClasses, hroot, ← length_classesOf]
    simp [classesOf, hleaves]
  obtain ⟨htree, hanalysis, hfloat⟩ := modules_partition
  refine ⟨hz, t, a, ht, ha, hroot, htotal, ?_, ?_, ?_⟩
  · exact (htree (some t) weights (1 / 4) none true "module" fun u hu =>
      Option.some.inj hu ▸ ht).2.1
  · have hperm := (hanalysis counts weights parameters (fun _ => false) a hz ha).2.1
    rwa [hroot, show classesOf (some t) = t.classes by simp [classesOf], hleaves] at hperm
  · exact hfloat counts weights parameters (fun _ => false) a ha (by omega)

end Linkage
