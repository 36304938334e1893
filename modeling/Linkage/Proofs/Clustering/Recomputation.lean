import Mathlib
import Linkage.Proofs.Clustering.CrossWeight
import Linkage.Proofs.Dendrogram.WellFormed
import Linkage.Proofs.OrderedPairs

/-!
# Average linkage by recomputation

The procedure that defines average linkage, without any running sums. The active clusters are
trees alone, in the order of creation. For every pair of positions `i < j` the mean weight over
all pairs of classes across the two clusters is computed anew, and the first pair, by `i` and
then by `j`, that attains the largest mean is joined: the two trees are taken out and their
union is put at the end.

`Recomputed.run` makes a run of this procedure, with the questions whether to stop, the series
of couplings and the events of a run.

## Main results

* `mem_pairs`: a pair is given by two positions in order, with the mean weight across its
  trees.
* `forall_of_merges`: what passes from two trees to their union holds of the tree of a run.
* `averaged_of_run`: every inner node of the tree of a run carries the mean weight across its
  children.
-/

namespace Linkage

/-- The positions of the elements of a list increase. -/
theorem pairwise_zipIdx_lt {β : Type} (xs : List β) (n : Nat) :
    (xs.zipIdx n).Pairwise fun e f => e.2 < f.2 := by
  rw [← List.pairwise_map, List.zipIdx_map_snd]
  exact List.pairwise_lt_range'

namespace Recomputed

open Dendrogram

/-! ### The procedure -/

section Procedure

variable (w : String → String → ℚ)

/-- The pairs of trees by position, by first and then by second position, each with the mean
weight across their classes. -/
def pairs (ts : List (Dendrogram ℚ)) : List (Candidate ℚ) :=
  (orderedPairs ts.zipIdx).map fun p =>
    ⟨p.1.2, p.2.2, meanWeight w p.1.1.classes p.2.1.classes⟩

/-- The **first pair with the largest mean**. -/
def closest? (ts : List (Dendrogram ℚ)) : Option (Candidate ℚ) :=
  (pairs w ts).find? fun c => (pairs w ts).all fun d => decide (d.coupling ≤ c.coupling)

/-- The end of a run after some merges. -/
def finish (made : Nat) : List (Dendrogram ℚ) → MergeRun ℚ
  | [] => ⟨.ok none, [], made, []⟩
  | t :: _ => ⟨.ok (some t), [], made, [.treeComplete made t]⟩

/-- The merges of a run: `left` are still to be made after `made`. -/
def merges (stop : Nat → Bool) : Nat → Nat → List (Dendrogram ℚ) → MergeRun ℚ
  | 0, made, ts => finish made ts
  | left + 1, made, ts =>
    if stop (made + 1) then .halted (.cancelled (made + 1) ts.length) (made + 1)
    else
      match closest? w ts with
      | none => finish made ts
      | some c =>
        match ts[c.first]?, ts[c.second]? with
        | some a, some b =>
          let union := node (clusterName (made + 1 : Nat)) a b c.coupling (made + 1)
          (merges stop left (made + 1) ((ts.eraseIdx c.second).eraseIdx c.first ++ [union])).after
            c.coupling (.merged (made + 1) a.name b.name c.coupling (ts.length - 1))
        | _, _ => finish made ts

/-- A run over classes in increasing order. -/
def run (stop : Nat → Bool) (classes : List String) : MergeRun ℚ :=
  if classes = [] then ⟨.ok none, [], 0, [.noClasses]⟩
  else
    let r := merges w stop (classes.length - 1) 0 (classes.map fun x => leaf x 0)
    { r with events := .clustering classes.length :: r.events }

end Procedure

/-! ### What the inner nodes carry -/

variable {w : String → String → ℚ}

/-- A pair is given by two positions in order, and carries the mean weight across its trees. -/
theorem mem_pairs {ts : List (Dendrogram ℚ)} {c : Candidate ℚ} (h : c ∈ pairs w ts) :
    c.first < c.second ∧ ∃ a b, ts[c.first]? = some a ∧ ts[c.second]? = some b ∧
      c.coupling = meanWeight w a.classes b.classes := by
  obtain ⟨⟨⟨a, i⟩, ⟨b, j⟩⟩, hp, rfl⟩ := List.mem_map.mp h
  obtain ⟨ha, hb⟩ := mem_of_mem_orderedPairs hp
  have hij : i < j := rel_of_mem_orderedPairs (pairwise_zipIdx_lt ts 0) hp
  exact ⟨hij, a, b, List.mem_zipIdx_iff_getElem?.mp ha, List.mem_zipIdx_iff_getElem?.mp hb, rfl⟩

/-- The pair to join is one of the pairs. -/
theorem mem_of_closest? {ts : List (Dendrogram ℚ)} {c : Candidate ℚ}
    (h : closest? w ts = some c) : c ∈ pairs w ts :=
  List.mem_of_find?_eq_some h

variable (w) in
/-- Every inner node of a tree carries the mean weight across its children. -/
def Averaged (t : Dendrogram ℚ) : Prop :=
  ∀ v ∈ t.nodes, ∀ l r, v.children = [l, r] → v.coupling = meanWeight w l.classes r.classes

/-- A leaf has no coupling to check. -/
theorem averaged_leaf (x : String) (c : ℚ) : Averaged w (leaf x c) := by
  simp [Averaged, children]

/-- A node has averaged couplings when its children do and its own is the mean weight between
them. -/
theorem Averaged.node {l r : Dendrogram ℚ} (hl : Averaged w l) (hr : Averaged w r) (n : String)
    {c : ℚ} (hc : c = meanWeight w l.classes r.classes) (k : Nat) :
    Averaged w (node n l r c k) := by
  refine forall_nodes_node.mpr ⟨fun l' r' hchildren => ?_, hl, hr⟩
  obtain ⟨rfl, rfl⟩ : l = l' ∧ r = r' := by simpa [children] using hchildren
  exact hc

/-- **What a merge keeps, a run keeps.** A property of trees that passes from two trees to
their union under the mean weight across them holds of the tree of a run, if it holds of the
trees at its start. Induction on the merges left. -/
theorem forall_of_merges {P : Dendrogram ℚ → Prop}
    (hunion : ∀ a b k, P a → P b →
      P (node (clusterName (k : Nat)) a b (meanWeight w a.classes b.classes) k))
    {stop : Nat → Bool} (left : Nat) :
    ∀ (made : Nat) (ts : List (Dendrogram ℚ)), (∀ t ∈ ts, P t) →
      ∀ t, (merges w stop left made ts).result = .ok (some t) → P t := by
  have hfinish : ∀ (made : Nat) (ts : List (Dendrogram ℚ)), (∀ t ∈ ts, P t) →
      ∀ t, (finish made ts).result = .ok (some t) → P t := by
    intro made ts hts t ht
    cases ts with
    | nil => cases ht
    | cons u rest =>
        cases ht
        exact hts t (by simp)
  induction left with
  | zero => exact hfinish
  | succ left ih =>
      intro made ts hts t ht
      unfold merges at ht
      split at ht
      · cases ht
      · split at ht
        · exact hfinish made ts hts t ht
        · next c hc =>
          obtain ⟨-, a, b, ha, hb, hmean⟩ := mem_pairs (mem_of_closest? hc)
          simp only [ha, hb, MergeRun.after, hmean] at ht
          refine ih _ _ (fun u hu => ?_) t ht
          rcases List.mem_append.mp hu with hu | hu
          · exact hts u ((List.eraseIdx_sublist ..).subset ((List.eraseIdx_sublist ..).subset hu))
          · obtain rfl := List.mem_singleton.mp hu
            exact hunion a b _ (hts a (List.mem_of_getElem? ha)) (hts b (List.mem_of_getElem? hb))

/-- **The tree of a run carries mean weights**, and has no other classes than those it started
from. -/
theorem averaged_of_run {stop : Nat → Bool} {classes : List String} {t : Dendrogram ℚ}
    (h : (run w stop classes).result = .ok (some t)) :
    Averaged w t ∧ ∀ x ∈ t.classes, x ∈ classes := by
  unfold run at h
  split at h
  · cases h
  · refine forall_of_merges (P := fun t => Averaged w t ∧ ∀ x ∈ t.classes, x ∈ classes)
      (fun a b k ha hb => ⟨ha.1.node hb.1 _ rfl k, fun x hx => ?_⟩) _ 0 _ (fun u hu => ?_) t h
    · rcases List.mem_append.mp (Text.mem_members.mp hx) with hx | hx
      · exact ha.2 x hx
      · exact hb.2 x hx
    · obtain ⟨x, hx, rfl⟩ := List.mem_map.mp hu
      refine ⟨averaged_leaf x 0, fun y hy => ?_⟩
      obtain rfl := List.mem_singleton.mp hy
      exact hx

end Recomputed

end Linkage
