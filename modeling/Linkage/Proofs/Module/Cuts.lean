import Mathlib
import Linkage.Proofs.Module.Topmost

/-!
# Cuts as a relation

What a cut makes of a subtree depends on the modules made before and on nothing else: the
averages that it remembers are those that would be computed again, and its events are not read.
`CutRule.Cuts` relates a subtree and the modules before it to the modules after it, with one
rule for each thing that a cut does with a subtree: it drops it, keeps it as a singleton,
accepts it, rejects it or divides it. A cut from a state with sound averages follows these
rules (`CutRule.cuts_cut`).

So what holds of all cuts, whatever the threshold and the limit are and whether or not
singletons are kept, takes one induction over the rules. The modules of a cut are nodes of its
tree in this way.

## Main results

* `CutRule.cuts_cut`: a cut follows the rules.
* `CutRule.Cuts.of_mem`: a module made by a cut is a node with the average between its classes.
* `CutRule.Cuts.exists_apart`: the modules of a cut are made of nodes that share no class.
* `Cutter.of_mem_modules`, `Cutter.exists_apart`: so are the modules of a cutter.
-/

namespace Linkage

open Dendrogram

variable {α : Type} [Scalar α]

namespace CutRule

/-- The **rules of a cut**: the modules before a subtree and after it. -/
inductive Cuts (rule : CutRule α) : Dendrogram α → List (Module α) → List (Module α) → Prop
  /-- At the limit a leaf is dropped, and any node when singletons are kept. -/
  | drop {t : Dendrogram α} {ms : List (Module α)} (full : rule.maxModules ≤ ms.length)
      (dropped : t.isLeaf = true ∨ rule.keepSingletons = true) : Cuts rule t ms ms
  /-- Below the limit a leaf is kept when singletons are. -/
  | keep {n : String} {c : α} {ms : List (Module α)} (room : ms.length < rule.maxModules)
      (kept : rule.keepSingletons = true) :
      Cuts rule (leaf n c) ms (ms ++ [moduleOf rule.weights rule.naming (leaf n c)])
  /-- A node is accepted when its average reaches the threshold, also at the limit if it is an
  inner node and singletons are not kept. -/
  | accept {t : Dendrogram α} {ms : List (Module α)}
      (reach : rule.threshold ≤ averagePairwise t.classes rule.weights)
      (offered : t.isLeaf = true → rule.keepSingletons = false)
      (room : t.isLeaf = true ∨ rule.keepSingletons = true → ms.length < rule.maxModules) :
      Cuts rule t ms (ms ++ [moduleOf rule.weights rule.naming t])
  /-- A node is rejected when its average does not reach the threshold. -/
  | reject {t : Dendrogram α} {ms : List (Module α)}
      (low : ¬ rule.threshold ≤ averagePairwise t.classes rule.weights)
      (offered : rule.keepSingletons = false) : Cuts rule t ms ms
  /-- Below the limit an inner node is divided when its average does not reach
  the threshold. -/
  | divide {n : String} {l r : Dendrogram α} {c : α} {k : Nat} {ms ms' ms'' : List (Module α)}
      (room : ms.length < rule.maxModules)
      (low : ¬ rule.threshold ≤ averagePairwise (node n l r c k).classes rule.weights)
      (left : Cuts rule l ms ms') (right : Cuts rule r ms' ms'') :
      Cuts rule (node n l r c k) ms ms''

variable {rule : CutRule α}

/-- An offer accepts or rejects a node. -/
theorem cuts_offer {s : CutState α} (hs : Sound rule.weights s.averages) {t : Dendrogram α}
    (hleaf : t.isLeaf = true → rule.keepSingletons = false)
    (hroom : t.isLeaf = true ∨ rule.keepSingletons = true → s.modules.length < rule.maxModules)
    (hlow : rule.keepSingletons = true → rule.threshold ≤ averagePairwise t.classes rule.weights) :
    Cuts rule t s.modules (rule.offer t s).modules ∧
      Sound rule.weights (rule.offer t s).averages := by
  obtain ⟨hmodules, hsound⟩ := offer_of_sound hs t
  refine ⟨?_, hsound⟩
  rw [hmodules]
  split
  · next hreach => exact .accept hreach hleaf hroom
  · next hreach =>
    rw [List.append_nil]
    exact .reject hreach (Bool.eq_false_iff.mpr fun hkeep => hreach (hlow hkeep))

/-- **A cut follows the rules.** Induction on the subtree. -/
theorem cuts_cut (rule : CutRule α) (t : Dendrogram α) :
    ∀ s : CutState α, Sound rule.weights s.averages →
      Cuts rule t s.modules (rule.cut t s).modules ∧
        Sound rule.weights (rule.cut t s).averages := by
  have hlimit : ∀ s : CutState α, rule.atLimit s = true ↔ rule.maxModules ≤ s.modules.length :=
    fun s => decide_eq_true_iff
  induction t with
  | leaf n c =>
      intro s hs
      rw [cut]
      split
      · next hfull => exact ⟨.drop ((hlimit s).mp hfull) (.inl rfl), hs⟩
      · next hroom =>
        rw [hlimit, not_le] at hroom
        split
        · next hkeep =>
          refine ⟨?_, hs⟩
          rw [← moduleOf_leaf rule.weights]
          exact .keep hroom hkeep
        · next hkeep =>
          exact cuts_offer hs (fun _ => Bool.eq_false_iff.mpr hkeep) (fun _ => hroom)
            fun hkept => absurd hkept hkeep
  | node n l r c k ihl ihr =>
      intro s hs
      obtain ⟨haverage, hknown⟩ := averageOf_of_sound hs (node n l r c k)
      have hinner : ¬ (node n l r c k).isLeaf = true := Bool.false_ne_true
      rw [cut]
      split
      · next hfull =>
        simp only
        split
        · next hkeep => exact ⟨.drop ((hlimit s).mp hfull) (.inr hkeep), hs⟩
        · next hkeep =>
          exact cuts_offer (s := s.report _) hs (fun h => absurd h hinner)
            (fun h => absurd (h.resolve_left hinner) hkeep) fun hkept => absurd hkept hkeep
      · next hroom =>
        rw [hlimit, not_le] at hroom
        simp only [haverage]
        split
        · next hreach =>
          exact cuts_offer (s := { s with averages := _ }) hknown (fun h => absurd h hinner)
            (fun _ => hroom) fun _ => hreach
        · next hlow =>
          obtain ⟨hleft, hsound⟩ := ihl (CutState.report { s with averages := _ } (.splitting n
            (averagePairwise (node n l r c k).classes rule.weights) rule.threshold)) hknown
          obtain ⟨hright, hsound'⟩ := ihr _ hsound
          exact ⟨.divide hroom hlow hleft hright, hsound'⟩

/-- **The modules of a cut are nodes of its subtree**, each with the average between its
classes. -/
theorem Cuts.of_mem {t : Dendrogram α} {ms ms' : List (Module α)} (h : Cuts rule t ms ms')
    {m : Module α} (hm : m ∈ ms') :
    m ∈ ms ∨ ∃ v ∈ t.nodes, m = moduleOf rule.weights rule.naming v := by
  induction h with
  | drop | reject => exact .inl hm
  | keep | accept =>
      rw [List.mem_append, List.mem_singleton] at hm
      exact hm.imp_right fun hm => ⟨_, self_mem_nodes _, hm⟩
  | divide _ _ _ _ ihl ihr =>
      rcases ihr hm with hm | ⟨v, hv, hmv⟩
      · refine (ihl hm).imp_right ?_
        rintro ⟨v, hv, hmv⟩
        exact ⟨v, by simp [hv], hmv⟩
      · exact .inr ⟨v, by simp [hv], hmv⟩

/-- **A cut makes modules of nodes apart from each other**, in the order of the walk: no two of
them share a class. Induction on the rules: a subtree that is divided has children that share
no class. -/
theorem Cuts.exists_apart {t : Dendrogram α} {ms ms' : List (Module α)} (h : Cuts rule t ms ms')
    (ht : t.WellFormed) :
    ∃ vs : List (Dendrogram α), ms' = ms ++ vs.map (moduleOf rule.weights rule.naming) ∧
      vs.Sublist t.nodes ∧ vs.Pairwise fun u v => u.classes.Disjoint v.classes := by
  induction h with
  | drop | reject => exact ⟨[], by simp, List.nil_sublist _, List.Pairwise.nil⟩
  | keep | accept =>
      refine ⟨[_], rfl, ?_, List.pairwise_singleton _ _⟩
      exact List.singleton_sublist.mpr (self_mem_nodes _)
  | @divide n l r c k _ _ _ _ _ _ _ ihl ihr =>
      obtain ⟨-, -, hd, hl, hr⟩ := ht
      obtain ⟨us, rfl, hus, husApart⟩ := ihl hl
      obtain ⟨vs, rfl, hvs, hvsApart⟩ := ihr hr
      refine ⟨us ++ vs, by rw [List.map_append, List.append_assoc], ?_, ?_⟩
      · rw [nodes_node]
        exact (hus.append hvs).cons _
      · refine List.pairwise_append.mpr ⟨husApart, hvsApart, fun u hu v hv x hxu hxv => ?_⟩
        exact hd (classes_subset_of_mem_nodes (hus.subset hu) hxu)
          (classes_subset_of_mem_nodes (hvs.subset hv) hxv)

end CutRule

/-- **The modules of a cutter** are nodes of its tree, each with the average between its
classes. -/
theorem Cutter.of_mem_modules {root : Option (Dendrogram α)} {total : Int} {threshold : α}
    {weights : CouplingWeights α} {keepSingletons : Bool} {naming : String} {m : Module α}
    (hm : m ∈ (ofTree root total threshold weights keepSingletons naming).identify.1.modules) :
    ∃ t v, root = some t ∧ v ∈ t.nodes ∧ m = moduleOf weights naming v := by
  cases root with
  | none => cases hm
  | some t =>
      rcases (CutRule.cuts_cut _ t _ (CutRule.sound_nil weights)).1.of_mem hm with hm | ⟨v, hv, hmv⟩
      · cases hm
      · exact ⟨t, v, rfl, hv, hmv⟩

/-- **The modules of a cutter are apart from each other**: they are made of nodes of its tree,
in the order of the walk, and no two of these share a class. -/
theorem Cutter.exists_apart {t : Dendrogram α} (ht : t.WellFormed) (total : Int) (threshold : α)
    (weights : CouplingWeights α) (keepSingletons : Bool) (naming : String) :
    ∃ vs : List (Dendrogram α),
      (ofTree (some t) total threshold weights keepSingletons naming).identify.1.modules =
        vs.map (moduleOf weights naming) ∧
      vs.Sublist t.nodes ∧ vs.Pairwise fun u v => u.classes.Disjoint v.classes := by
  let cutter := ofTree (some t) total threshold weights keepSingletons naming
  let start : CutState α := ⟨[], [], [.cutting cutter.rule.maxModules threshold]⟩
  exact (CutRule.cuts_cut cutter.rule t start (CutRule.sound_nil weights)).1.exists_apart ht

end Linkage
