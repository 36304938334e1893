import Mathlib
import Linkage.Proofs.Analysis
import Linkage.Proofs.Module.Cuts

/-!
# The identifiers of modules

A module is named after the node that it is made of, and a node is named after its class or
after its level. The names of different classes differ, and so do those of different levels,
however many digits they have. Nothing keeps the two kinds of names apart: a class may be
called like a cluster.

So two modules of an analysis have the same identifier exactly when one of them is a single
class that is called like the node of the other one. The modules themselves are apart all the
same, and averages are remembered by sets of classes and not by names.

## Main results

* `clusterName_injective`: different levels give different names.
* `Forest.nodup_names_iff`: when nodes that share no class have different names.
* `nodup_moduleIds_iff`: when the modules of an analysis have different identifiers.
-/

namespace Linkage

open Dendrogram

/-! ### The names of clusters -/

/-- Zeros in front of a numeral do not change its value. -/
theorem ofDigitChars_zeros (zeros : ℕ) (digits : List Char) :
    Nat.ofDigitChars 10 (List.replicate zeros '0' ++ digits) 0 = Nat.ofDigitChars 10 digits 0 := by
  induction zeros with
  | zero => rfl
  | succ zeros ih =>
      rw [List.replicate_succ, List.cons_append, Nat.ofDigitChars_cons]
      exact ih

/-- A padded numeral reads back as its number. -/
theorem ofDigitChars_paddedNumeral (width k : ℕ) :
    Nat.ofDigitChars 10 (paddedNumeral width (k : ℕ)).toList 0 = k := by
  have hsign : ¬ ((k : ℕ) : Int) < 0 := by omega
  simp only [paddedNumeral, hsign, if_false, String.toList_append, String.toList_ofList,
    Int.natAbs_natCast, Nat.toString_eq_ofList_toDigits]
  rw [String.toList_empty, List.nil_append, ofDigitChars_zeros, Nat.ofDigitChars_ten_toDigits]

/-- **Different levels give different names**, however many digits they have. -/
theorem clusterName_injective : Function.Injective fun k : ℕ => clusterName (k : ℕ) := by
  intro j k h
  have hdigits : paddedNumeral 3 (j : ℕ) = paddedNumeral 3 (k : ℕ) :=
    (String.append_right_inj "cluster-").mp h
  rw [← ofDigitChars_paddedNumeral 3 j, hdigits, ofDigitChars_paddedNumeral]

variable {α : Type} [Scalar α]

/-! ### The names of nodes -/

namespace Forest

variable {classes : List String} {series : List α} {t u v : Dendrogram α}
  (h : Forest classes series [t])
include h

/-- The level of an inner node is one of the merges. -/
theorem level_bounds (hv : v ∈ t.nodes) (hinner : v.isLeaf = false) :
    1 ≤ v.level ∧ v.level ≤ series.length := by
  have hmerge : (v.level, v.coupling) ∈ t.merges :=
    List.mem_map_of_mem (List.mem_filter.mpr ⟨hv, by rw [hinner, Bool.not_false]⟩)
  exact level_le_of_mem_numbered (h.merges.mem_iff.mp (by simpa using hmerge))

/-- **Inner nodes with the same name are the same**: they have the same level. -/
theorem eq_of_name_eq (hu : u ∈ t.nodes) (hv : v ∈ t.nodes) (hu' : u.isLeaf = false)
    (hv' : v.isLeaf = false) (hname : u.name = v.name) : u = v := by
  have hgrown := h.grown t List.mem_cons_self
  have hlevel : u.level = v.level := by
    rw [hgrown.name_eq hu hu', hgrown.name_eq hv hv'] at hname
    exact clusterName_injective hname
  have hlevels : (t.inner.map level).Nodup := by
    have hmerges := h.merges.map Prod.fst
    rw [List.flatMap_singleton, Dendrogram.merges, List.map_map, numbered,
      List.map_fst_zip (by simp)] at hmerges
    exact hmerges.nodup_iff.mpr List.nodup_range'
  have hinner : ∀ {w : Dendrogram α}, w ∈ t.nodes → w.isLeaf = false → w ∈ t.inner :=
    fun hw hw' => List.mem_filter.mpr ⟨hw, by rw [hw', Bool.not_false]⟩
  exact List.inj_on_of_nodup_map hlevels (hinner hu hu') (hinner hv hv') hlevel

/-- Of two nodes that share no class and have the same name, one is a leaf and the other is
not. -/
theorem isLeaf_ne_of_name_eq (hu : u ∈ t.nodes) (hv : v ∈ t.nodes)
    (hapart : u.classes.Disjoint v.classes) (hname : u.name = v.name) : u.isLeaf ≠ v.isLeaf := by
  intro hsame
  cases hu' : u.isLeaf with
  | false =>
      obtain rfl := h.eq_of_name_eq hu hv hu' (hsame ▸ hu') hname
      obtain ⟨x, hx⟩ := List.exists_mem_of_ne_nil _ u.classes_ne_nil
      exact hapart hx hx
  | true =>
      rw [classes_of_isLeaf hu', classes_of_isLeaf (hsame ▸ hu'), hname] at hapart
      exact hapart List.mem_cons_self List.mem_cons_self

/-- **When nodes that share no class have different names**: none of them is a leaf that is
called like an inner node among them. -/
theorem nodup_names_iff {vs : List (Dendrogram α)} (hvs : vs ⊆ t.nodes)
    (hapart : vs.Pairwise fun u v => u.classes.Disjoint v.classes) :
    (vs.map name).Nodup ↔
      ∀ u ∈ vs, ∀ v ∈ vs, u.isLeaf = true → v.isLeaf = false → u.name ≠ v.name := by
  constructor
  · intro hnodup u hu v hv hu' hv' hname
    obtain rfl := List.inj_on_of_nodup_map hnodup hu hv hname
    exact Bool.false_ne_true (hv'.symm.trans hu')
  · intro hnames
    refine List.pairwise_map.mpr (hapart.imp_of_mem fun {u v} hu hv hd hname => ?_)
    have hkinds := h.isLeaf_ne_of_name_eq (hvs hu) (hvs hv) hd hname
    cases hu' : u.isLeaf with
    | true => exact hnames u hu v hv hu' (by simpa [hu'] using hkinds) hname
    | false => exact hnames v hv u hu (by simpa [hu'] using hkinds) hu' hname.symm

/-- A leaf and an inner node have different names when no class is called like a cluster. -/
theorem name_ne_of_not_mem
    (hnames : ∀ k : ℕ, 1 ≤ k → k < classes.length → clusterName (k : ℕ) ∉ classes)
    (hu : u ∈ t.nodes) (hv : v ∈ t.nodes) (hu' : u.isLeaf = true) (hv' : v.isLeaf = false) :
    u.name ≠ v.name := by
  intro hname
  obtain ⟨hpos, hle⟩ := h.level_bounds hv hv'
  have hlength := h.length_eq
  refine hnames v.level hpos (by omega) (h.leaves.mem_iff.mp ?_)
  rw [List.flatMap_singleton, ← (h.grown t List.mem_cons_self).name_eq hv hv', ← hname]
  exact List.mem_map_of_mem (List.mem_filter.mpr ⟨hu, hu'⟩)

end Forest

/-! ### The identifiers of modules -/

/-- The identifiers of modules made of nodes are different when the names of the nodes are. -/
theorem nodup_ids_iff_nodup_names (weights : CouplingWeights α) (naming : String)
    (vs : List (Dendrogram α)) :
    ((vs.map (moduleOf weights naming)).map Module.id).Nodup ↔ (vs.map name).Nodup := by
  have hinjective : Function.Injective fun n : String => naming ++ "-" ++ n :=
    fun _ _ h => (String.append_right_inj (naming ++ "-")).mp h
  have hids : (vs.map (moduleOf weights naming)).map Module.id =
      (vs.map name).map fun n => naming ++ "-" ++ n := by
    rw [List.map_map, List.map_map]
    rfl
  rw [hids, List.nodup_map_iff hinjective]

/-- The set of classes of a node is that of a name alone when the node is a leaf with this
name. -/
theorem Dendrogram.WellFormed.classes_eq_singleton_iff {v : Dendrogram α} (h : v.WellFormed)
    {x : String} : v.classes = [x] ↔ v.isLeaf = true ∧ v.name = x := by
  constructor
  · intro hx
    have hleaf : v.isLeaf = true := by
      by_contra hinner
      have htwo := h.two_le_classCount_iff.mpr (Bool.eq_false_iff.mpr hinner)
      rw [classCount, hx, List.length_singleton] at htwo
      omega
    rw [classes_of_isLeaf hleaf] at hx
    exact ⟨hleaf, List.singleton_inj.mp hx⟩
  · rintro ⟨hleaf, rfl⟩
    exact classes_of_isLeaf hleaf

/-- The modules of a cutter have different identifiers exactly when no single class among them
is called like the node of another one with two classes or more. -/
theorem Cutter.nodup_ids_iff {classes : List String} {series : List α} {t : Dendrogram α}
    (h : Forest classes series [t]) (total : Int) (threshold : α) (weights : CouplingWeights α)
    (keepSingletons : Bool) (naming : String) :
    let modules :=
      (ofTree (some t) total threshold weights keepSingletons naming).identify.1.modules
    (modules.map Module.id).Nodup ↔
      ∀ m ∈ modules, ∀ m' ∈ modules, 2 ≤ m'.classCount → m.classes ≠ [m'.nodeId] := by
  intro modules
  have hwf := h.wellFormed t List.mem_cons_self
  obtain ⟨vs, hmodules, hsub, hapart⟩ :=
    exists_apart hwf total threshold weights keepSingletons naming
  have hnode : ∀ v ∈ vs, v.WellFormed := fun v hv => hwf.of_mem_nodes (hsub.subset hv)
  rw [show modules = _ from hmodules, nodup_ids_iff_nodup_names,
    h.nodup_names_iff hsub.subset hapart]
  simp only [List.forall_mem_map]
  refine forall₂_congr fun u hu => forall₂_congr fun v hv => ?_
  have hleaf : (moduleOf weights naming u).classes = [(moduleOf weights naming v).nodeId] ↔
      u.isLeaf = true ∧ u.name = v.name := (hnode u hu).classes_eq_singleton_iff
  have hinner : 2 ≤ (moduleOf weights naming v).classCount ↔ v.isLeaf = false :=
    (hnode v hv).two_le_classCount_iff
  rw [hinner]
  constructor
  · intro hnames hv' hsame
    obtain ⟨hu', hname⟩ := hleaf.mp hsame
    exact hnames hu' hv' hname
  · exact fun hnames hu' hv' hname => hnames hv' (hleaf.mpr ⟨hu', hname⟩)

/-- No single class is called like the node of a module when no class is called like
a cluster. -/
theorem Cutter.classes_ne_of_not_mem {classes : List String} {series : List α} {t : Dendrogram α}
    (h : Forest classes series [t])
    (hnames : ∀ k : ℕ, 1 ≤ k → k < classes.length → clusterName (k : ℕ) ∉ classes) {total : Int}
    {threshold : α} {weights : CouplingWeights α} {keepSingletons : Bool} {naming : String}
    {m m' : Module α}
    (hm : m ∈ (ofTree (some t) total threshold weights keepSingletons naming).identify.1.modules)
    (hm' : m' ∈ (ofTree (some t) total threshold weights keepSingletons naming).identify.1.modules)
    (htwo : 2 ≤ m'.classCount) : m.classes ≠ [m'.nodeId] := by
  intro hsame
  have hwf := h.wellFormed t List.mem_cons_self
  obtain ⟨_, u, ⟨⟩, hu, rfl⟩ := of_mem_modules hm
  obtain ⟨_, v, ⟨⟩, hv, rfl⟩ := of_mem_modules hm'
  obtain ⟨hleaf, hname⟩ := (hwf.of_mem_nodes hu).classes_eq_singleton_iff.mp hsame
  have hinner : v.isLeaf = false := (hwf.of_mem_nodes hv).two_le_classCount_iff.mp htwo
  exact h.name_ne_of_not_mem hnames hu hv hleaf hinner hname

/-- An analysis that returns has cut a tree that has grown over the classes of its call graph,
or there were no classes. -/
theorem exists_forest_of_analyse (hz : ((0 : α) == 0) = true) {g : CallGraph}
    {parameters : Parameters α} {stop : Nat → Bool} {a : Analysis α}
    (h : (analyse g parameters stop).result = .ok a) :
    a.modules = [] ∨ ∃ (s : CouplingSummary α) (t : Dendrogram α) (series : List α),
      CouplingSummary.ofGraph? g = some s ∧ Forest (classesIn (countCalls g)) series [t] ∧
      a.modules = (Cutter.ofTree (some t) (classTotal (some t)) parameters.minCoupling s.weights
        parameters.keepSingletons parameters.naming).identify.1.modules := by
  obtain ⟨s, hs, hcounts⟩ := exists_summary_of_analyse h
  obtain ⟨-, -, hrun, hmodules⟩ := stages_of_analyse hs h
  cases hroot : a.dendrogram with
  | none => exact .inl (by rw [hmodules, hroot]; rfl)
  | some t =>
      rw [hroot] at hrun hmodules
      exact .inr ⟨s, t, _, hs, hcounts ▸ forest_of_run hz hrun, hmodules⟩

/-- **When the modules of an analysis have different identifiers**: for every call graph,
threshold and prefix, with and without singletons kept, exactly when no module of a single
class is called like the node of a module with two classes or more. So they have when no class
is called like a cluster, and in exact arithmetic, where an analysis that is not stopped
returns, when singletons are not kept. -/
theorem nodup_moduleIds_iff (hz : ((0 : α) == 0) = true) (g : CallGraph)
    (parameters : Parameters α) :
    (∀ stop a, (analyse g parameters stop).result = .ok a →
      ((a.modules.map Module.id).Nodup ↔
        ∀ m ∈ a.modules, ∀ m' ∈ a.modules, 2 ≤ m'.classCount → m.classes ≠ [m'.nodeId]) ∧
      ((∀ k : ℕ, 1 ≤ k → k < (classesIn (countCalls g)).length →
          clusterName (k : ℕ) ∉ classesIn (countCalls g)) → (a.modules.map Module.id).Nodup)) ∧
    (ExactScalar α →
      (∃ a, (analyse g parameters fun _ => false).result = .ok a) ∧
        (parameters.keepSingletons = false → ∀ stop a, (analyse g parameters stop).result = .ok a →
          (a.modules.map Module.id).Nodup)) := by
  refine ⟨fun stop a ha => ?_,
    fun hexact => ⟨exists_analysis g parameters, fun hkeep stop a ha => ?_⟩⟩
  · rcases exists_forest_of_analyse hz ha with hnone | ⟨s, t, series, -, hF, hmodules⟩
    · simp [hnone]
    · rw [hmodules]
      have hiff := Cutter.nodup_ids_iff hF (classTotal (some t)) parameters.minCoupling s.weights
        parameters.keepSingletons parameters.naming
      exact ⟨hiff, fun hnames => hiff.mpr fun m hm m' hm' htwo =>
        Cutter.classes_ne_of_not_mem hF hnames hm hm' htwo⟩
  · rcases exists_forest_of_analyse hz ha with hnone | ⟨s, t, series, hs, hF, hmodules⟩
    · simp [hnone]
    · rw [hkeep] at hmodules
      rw [hmodules]
      refine (Cutter.nodup_ids_iff hF _ _ _ _ _).mpr fun m hm m' _ _ hsame => ?_
      obtain ⟨s', hs', -, hshares⟩ := CouplingSummary.exists_shares (α := α) g
      obtain rfl : s' = s := Option.some.inj (hs'.symm.trans hs)
      have htwo := Cutter.two_le_classCount_of_mem (hF.wellFormed t List.mem_cons_self)
        (averagePairwise_nonneg (fun w hw => (hshares w hw).1) _) hm
      rw [Module.classCount, hsame, List.length_singleton] at htwo
      omega

/-- A pair of classes and one of two leaves: the names of the classes do not look like those of
clusters, and the modules have different identifiers. -/
theorem nodup_moduleIds_iff_of_two_pairs :
    let g : CallGraph := .ofList [("p.A.f", ["p.B.run", "p.B.stop"]), ("p.C.f", ["p.D.run"])]
    let parameters : Parameters ℚ := ⟨1 / 2, true, "module"⟩
    ((0 : ℚ) == 0) = true ∧ ∃ a, (analyse g parameters fun _ => false).result = .ok a ∧
      a.modules.map Module.id = ["module-cluster-001", "module-p.C"] ∧
      (∀ k : ℕ, 1 ≤ k → k < (classesIn (countCalls g)).length →
        clusterName (k : ℕ) ∉ classesIn (countCalls g)) ∧
      (a.modules.map Module.id).Nodup := by
  intro g parameters
  have hz : ((0 : ℚ) == 0) = true := by decide
  obtain ⟨hmodules, hexact⟩ := nodup_moduleIds_iff hz g parameters
  obtain ⟨a, ha⟩ := (hexact inferInstance).1
  have hids : ((analyse g parameters fun _ => false).result.toOption.map
      fun a => a.modules.map Module.id) = some ["module-cluster-001", "module-p.C"] := by
    subst g parameters
    cbv
  rw [ha] at hids
  have hclasses : classesIn (countCalls g) = ["p.A", "p.B", "p.C", "p.D"] := by
    subst g
    cbv
  have hnames : ∀ k : ℕ, 1 ≤ k → k < (classesIn (countCalls g)).length →
      clusterName (k : ℕ) ∉ classesIn (countCalls g) := by
    rw [hclasses]
    intro k hpos hlt
    have hlt : k < 4 := hlt
    interval_cases k <;> decide +kernel
  exact ⟨hz, a, ha, Option.some.inj hids, hnames, (hmodules _ a ha).2 hnames⟩

/-- The calls of a graph with a class that is called like a cluster. -/
theorem countCalls_of_class_called_like_cluster :
    let g : CallGraph := .ofList [("a.f", ["b.g", "b.h", "b.i"]), ("d.f", ["cluster-001.g"])]
    countCalls g = .ofList [(("a", "b"), 3), (("cluster-001", "d"), 1)] := by
  intro g
  have hcallers : g.callers = ["a.f", "d.f"] := by
    subst g
    cbv
  have hfirst : g.calleesOf "a.f" = ["b.g", "b.h", "b.i"] := by
    subst g
    cbv
  have hsecond : g.calleesOf "d.f" = ["cluster-001.g"] := by
    subst g
    cbv
  have hresolver : ClassResolver.ofGraph g = ⟨.ofList [("a", "a"), ("d", "d")]⟩ := by
    rw [ClassResolver.ofGraph, hcallers]
    rfl
  have hpackages : ProjectPackages.none.redetect g = ⟨[""]⟩ := by
    have hnamed : ProjectPackages.namedIn g = ["", ""] := by
      rw [ProjectPackages.namedIn, hresolver]
      subst g
      decide +kernel
    rw [ProjectPackages.redetect, hnamed]
    cbv
  have hrelations : g.relationsWithin ⟨[""]⟩ = [(("a", "b"), "b.g"), (("a", "b"), "b.h"),
      (("a", "b"), "b.i"), (("cluster-001", "d"), "cluster-001.g")] := by
    rw [CallGraph.relationsWithin, CallGraph.callsWithin, hcallers, hresolver]
    simp only [List.flatMap_cons, List.flatMap_nil, hfirst, hsecond]
    decide +kernel
  rw [countCalls, countCallsIn, hpackages, hrelations]
  rfl

/-- A class that is called like a cluster: it is kept as a module next to that of the cluster,
and both have the same identifier. -/
theorem moduleIds_eq_of_class_called_like_cluster :
    let g : CallGraph := .ofList [("a.f", ["b.g", "b.h", "b.i"]), ("d.f", ["cluster-001.g"])]
    let parameters : Parameters ℚ := ⟨1 / 2, true, "module"⟩
    ∃ a, (analyse g parameters fun _ => false).result = .ok a ∧
      a.modules.map Module.classes = [["a", "b"], ["cluster-001"]] ∧
      a.modules.map Module.id = ["module-cluster-001", "module-cluster-001"] := by
  intro g parameters
  let counts : CouplingCounts := .ofList [(("a", "b"), 3), (("cluster-001", "d"), 1)]
  let weights : CouplingWeights ℚ := .ofList [(("a", "b"), 3 / 4), (("cluster-001", "d"), 1 / 4)]
  have hcounts : countCalls g = counts := countCalls_of_class_called_like_cluster
  have hweights : normalise? counts (totalCalls counts) = some weights := by
    subst counts weights
    cbv
  obtain ⟨a, ha⟩ := exists_analysis g parameters
  have hresult : (analyseTables counts weights parameters fun _ => false).result = .ok a := by
    rw [← ha, analyse_result (s := ⟨counts, totalCalls counts, weights, ProjectPackages.detect g⟩)]
    rw [CouplingSummary.ofGraph?, hcounts, hweights, Option.map_some]
  have hmodules : ((analyseTables counts weights parameters fun _ => false).result.toOption.map
      fun a => a.modules.map fun m => (m.classes, m.id)) =
        some [(["a", "b"], "module-cluster-001"), (["cluster-001"], "module-cluster-001")] := by
    subst counts weights parameters
    cbv
  rw [hresult] at hmodules
  have hclasses := congrArg (List.map Prod.fst) (Option.some.inj hmodules)
  have hids := congrArg (List.map Prod.snd) (Option.some.inj hmodules)
  rw [List.map_map] at hclasses hids
  exact ⟨a, ha, hclasses, hids⟩

end Linkage
