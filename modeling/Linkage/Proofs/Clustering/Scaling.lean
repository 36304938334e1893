import Mathlib
import Linkage.Proofs.Clustering.ActiveList
import Linkage.Proofs.Clustering.WeightMatrix
import Linkage.Proofs.Number.OrderedScalar
import Linkage.Proofs.Text.Members

/-!
# Weights in another unit

Weights can be measured in another unit: as numbers of calls, say, in place of shares in all
calls. A change of unit multiplies every weight by one positive factor. What a clustering does
with weights is to add them, to divide them by numbers of classes, and to compare them with
each other and with zero, and a change of unit goes along with all of it. So the same pairs are
joined in the same order, ties and zero cells included, and every coupling is the old one in
the new unit.

`Rescaling` states what is used of a change of unit; whatever is made of scalars is rescaled by
rescaling every scalar in it.

## Main results

* `Rescaling.mul_pos`, `Rescaling.finite_mul`: a positive factor is a change of unit.
* `Rescaling.weightMatrix_rescale`: the matrix of rescaled weights.
* `Rescaling.closest?_rescale`: the same pair is joined.
* `Rescaling.mergeStep?_rescale`, `Rescaling.mergeLoop_rescale`: a merge and a run of merges
  are rescaled.
* `Rescaling.buildDendrogram_rescale`: the dendrogram of rescaled weights.
-/

namespace Linkage

variable {α : Type}

/-! ### What is made of scalars -/

/-- The tree with every coupling rescaled. -/
def Dendrogram.rescale (f : α → α) : Dendrogram α → Dendrogram α
  | leaf n c => leaf n (f c)
  | node n l r c k => node n (l.rescale f) (r.rescale f) (f c) k

/-- The module with its average rescaled. -/
def Module.rescale (f : α → α) (m : Module α) : Module α :=
  { m with averageCoupling := f m.averageCoupling }

/-- The event with every scalar rescaled. -/
def Event.rescale (f : α → α) : Event α → Event α
  | callsCounted pairs packages skipped => callsCounted pairs packages skipped
  | tableBuilt pairs calls => tableBuilt pairs calls
  | noClasses => noClasses
  | clustering classes => clustering classes
  | merged i l r c remaining => merged i l r (f c) remaining
  | treeComplete merges root => treeComplete merges (root.rescale f)
  | cutting maxModules threshold => cutting maxModules (f threshold)
  | limitReached maxModules node => limitReached maxModules node
  | keptSingleton node => keptSingleton node
  | splitting node average threshold => splitting node (f average) (f threshold)
  | accepted made => accepted (made.rescale f)
  | rejected node average threshold => rejected node (f average) (f threshold)
  | cutComplete modules budget meets => cutComplete modules budget meets
  | classesLeft left total => classesLeft left total
  | renderingsWritten directory => renderingsWritten directory

/-- The active cluster with its tree and its links rescaled. -/
def Cluster.rescale (f : α → α) (c : Cluster α) : Cluster α :=
  ⟨c.tree.rescale f, c.size, c.links.map f⟩

/-- The pair of clusters with its average rescaled. -/
def Candidate.rescale (f : α → α) (c : Candidate α) : Candidate α :=
  { c with coupling := f c.coupling }

/-- The outcome of a run with every scalar rescaled. -/
def MergeRun.rescale (f : α → α) (r : MergeRun α) : MergeRun α :=
  ⟨r.result.map (Option.map (Dendrogram.rescale f)), r.couplings.map f, r.asked,
    r.events.map (Event.rescale f)⟩

/-- A tree in another unit has the same name. -/
theorem Dendrogram.name_rescale (f : α → α) (t : Dendrogram α) : (t.rescale f).name = t.name := by
  cases t <;> rfl

/-- A tree in another unit has the same classes. -/
theorem Dendrogram.classes_rescale (f : α → α) (t : Dendrogram α) :
    (t.rescale f).classes = t.classes := by
  induction t with
  | leaf n c => rfl
  | node n l r c k ihl ihr => simp only [rescale, classes, ihl, ihr]

/-! ### Changes of unit -/

variable [Scalar α]

/-- A **change of unit**: a map of scalars that goes along with sums, with parts of a scalar,
and with comparisons, also with those to zero. -/
structure Rescaling (f : α → α) : Prop where
  /-- Zero is zero in every unit. -/
  map_zero : f 0 = 0
  /-- Sums are rescaled. -/
  map_add : ∀ a b, f (a + b) = f a + f b
  /-- Parts are rescaled. -/
  map_div : ∀ a (n : Nat), f (a / (n : α)) = f a / (n : α)
  /-- The order stays. -/
  le_iff : ∀ {a b}, f a ≤ f b ↔ a ≤ b
  /-- What equals zero stays. -/
  beq_zero : ∀ a, (f a == 0) = (a == 0)

/-- **A positive factor is a change of unit.** -/
theorem Rescaling.mul_pos {c : ℚ} (hc : 0 < c) : Rescaling (α := ℚ) (c * ·) where
  map_zero := Rat.mul_zero c
  map_add a b := Rat.mul_add c a b
  map_div a n := mul_div_assoc c a n |>.symm
  le_iff := mul_le_mul_iff_right₀ hc
  beq_zero a := by
    rw [Bool.eq_iff_iff]
    exact (beq_iff_eq (a := c * a) (b := (0 : ℚ))).trans
      ((mul_eq_zero_iff_left hc.ne').trans beq_iff_eq.symm)

namespace Extended

/-- A rational number times a factor; the other values stay. -/
def stretch (c : ℚ) : Extended → Extended
  | finite a => finite (c * a)
  | unbounded s => unbounded s
  | undefined => undefined

/-- A finite factor stretches a number. -/
theorem finite_mul_eq_stretch {c : ℚ} (hc : 0 < c) (a : Extended) : finite c * a = stretch c a := by
  cases a with
  | finite q => rfl
  | unbounded s =>
      have hscale : finite c * unbounded s = scale s c := rfl
      have hsign : decide (c < 0) = false := decide_eq_false hc.le.not_gt
      rw [hscale, scale, if_neg hc.ne', hsign, Bool.xor_false]
      rfl
  | undefined => rfl

/-- A sum is stretched with its terms. -/
theorem stretch_add (c : ℚ) (a b : Extended) :
    stretch c (a.add b) = (stretch c a).add (stretch c b) := by
  rcases a with p | (_ | _) | _ <;> rcases b with q | (_ | _) | _ <;> simp [stretch, add, mul_add]

/-- A quotient is stretched with its dividend. -/
theorem stretch_div (c : ℚ) (a : Extended) (q : ℚ) :
    stretch c (a.div (finite q)) = (stretch c a).div (finite q) := by
  by_cases hq : q = 0
  · rcases a with p | s | _ <;> simp [stretch, div, scale, hq]
  · rcases a with p | s | _ <;> simp [stretch, div, scale, hq, mul_div_assoc]

/-- Stretching by a positive factor keeps the order. -/
theorem atMost_stretch {c : ℚ} (hc : 0 < c) (a b : Extended) :
    (stretch c a).atMost (stretch c b) = a.atMost b := by
  rcases a with p | (_ | _) | _ <;> rcases b with q | (_ | _) | _ <;> simp [stretch, atMost]
  exact mul_le_mul_iff_right₀ hc

end Extended

/-- A positive factor is a change of unit also for unbounded and undefined weights. -/
theorem Rescaling.finite_mul {c : ℚ} (hc : 0 < c) :
    Rescaling (α := Extended) (Extended.finite c * ·) := by
  have hzero : Extended.stretch c 0 = 0 := congrArg Extended.finite (Rat.mul_zero c)
  have hle : ∀ {a b}, Extended.stretch c a ≤ Extended.stretch c b ↔ a ≤ b := fun {a b} => by
    rw [Extended.le_iff, Extended.le_iff, Extended.atMost_stretch hc]
  rw [funext fun a => Extended.finite_mul_eq_stretch hc a]
  refine ⟨hzero, Extended.stretch_add c, fun a n => Extended.stretch_div c a n, hle, fun a => ?_⟩
  have hsame : ∀ b, (b == (0 : Extended)) = (b.atMost 0 && Extended.atMost 0 b) := fun _ => rfl
  have habove := Extended.atMost_stretch hc a 0
  have hbelow := Extended.atMost_stretch hc 0 a
  rw [hzero] at habove hbelow
  rw [hsame, hsame, habove, hbelow]

/-- Steps that go along with a change of their inputs and outputs do so one after the other. -/
theorem mapM_map_of_forall {ε β γ : Type} {change : β → β} {change' : γ → γ} {step : β → Except ε γ}
    (h : ∀ x, step (change x) = (step x).map change') (xs : List β) :
    (xs.map change).mapM step = (xs.mapM step).map (List.map change') := by
  induction xs with
  | nil => rfl
  | cons x rest ih =>
      rw [List.map_cons, List.mapM_cons, List.mapM_cons, h, ih]
      cases step x with
      | error cause => rfl
      | ok y =>
          cases rest.mapM step with
          | error cause => rfl
          | ok ys => rfl

namespace Rescaling

variable {f : α → α}

variable (hf : Rescaling f)
include hf

/-- A single class has no coupling to rescale. -/
theorem ofClass?_rescale (name : String) :
    (Dendrogram.ofClass? name).map (Dendrogram.rescale f) = Dendrogram.ofClass? name := by
  simp only [Dendrogram.ofClass?, Dendrogram.make?]
  split
  · rfl
  · split
    · rfl
    · simp only [Except.map, Dendrogram.rescale, hf.map_zero]

omit hf in
/-- The union of two trees is refused for their classes, its name and its level alone. -/
theorem merge?_rescale (name : String) (l r : Dendrogram α) (c : α) (level : Int) :
    Dendrogram.merge? name (l.rescale f) (r.rescale f) (f c) level =
      (Dendrogram.merge? name l r c level).map (Dendrogram.rescale f) := by
  simp only [Dendrogram.merge?, Dendrogram.make?, Dendrogram.classes_rescale]
  split
  · rfl
  · split
    · rfl
    · split
      · rfl
      · rfl

/-! ### The weight matrix -/

/-- The first coupling that is not zero is rescaled with the couplings. -/
theorem keepNonzero_rescale (held offered : α) :
    keepNonzero (f held) (f offered) = f (keepNonzero held offered) := by
  rw [keepNonzero, keepNonzero, hf.beq_zero]
  split <;> rfl

/-- The first weight other than zero stays the first. -/
theorem foldl_keepNonzero_rescale (xs : List α) (start : α) :
    (xs.map f).foldl keepNonzero (f start) = f (xs.foldl keepNonzero start) := by
  induction xs generalizing start with
  | nil => rfl
  | cons x rest ih =>
      rw [List.map_cons, List.foldl_cons, hf.keepNonzero_rescale, ih, List.foldl_cons]

/-- The first coupling stored for two classes is rescaled with the table. -/
theorem firstWeight_rescale (weights : CouplingWeights α) (a b : String) :
    firstWeight (weights.mapValues f) a b = f (firstWeight weights a b) := by
  have hvalues : (((weights.mapValues f).entries.filter fun e => relates a b e.1).map Prod.snd) =
      ((weights.entries.filter fun e => relates a b e.1).map Prod.snd).map f := by
    simp only [OrderedMap.mapValues, List.filter_map, List.map_map, Function.comp_def]
  have hfold := hf.foldl_keepNonzero_rescale
    ((weights.entries.filter fun e => relates a b e.1).map Prod.snd) 0
  rw [hf.map_zero] at hfold
  rw [firstWeight, hvalues, hfold, firstWeight]

/-- A cell is rescaled with the table. -/
theorem cell_rescale (weights : CouplingWeights α) (a b : Option String) :
    cell (weights.mapValues f) a b = f (cell weights a b) := by
  unfold cell
  split
  · split
    · exact hf.map_zero.symm
    · exact hf.firstWeight_rescale weights _ _
  · exact hf.map_zero.symm

/-- **The matrix of rescaled weights** is the matrix of the weights, rescaled. -/
theorem weightMatrix_rescale {classes : List String} (hnd : classes.Nodup)
    (weights : CouplingWeights α) :
    weightMatrix classes (weights.mapValues f) =
      (weightMatrix classes weights).map (List.map f) := by
  simp only [weightMatrix_of_nodup hnd, hf.cell_rescale, List.map_map, Function.comp_def]

/-! ### The pair to join -/

/-- The candidates of one cluster are rescaled with the clusters. -/
theorem candidatesAt_rescale (clusters : List (Cluster α)) (c : Cluster α) (i : Nat) :
    Cluster.candidatesAt (clusters.map (Cluster.rescale f)) (c.rescale f) i =
      (Cluster.candidatesAt clusters c i).map (Candidate.rescale f) := by
  have hlink (d : Cluster α) (x : α) : Cluster.averageLink (c.rescale f) (d.rescale f) (f x) =
      f (Cluster.averageLink c d x) := (hf.map_div x _).symm
  have hlinks : (c.rescale f).links = c.links.map f := rfl
  rw [Cluster.candidatesAt, List.zipIdx_map, hlinks, List.zip_map, ← List.map_drop, List.map_map,
    Cluster.candidatesAt, List.map_map]
  exact List.map_congr_left fun e _ => congrArg _ (hlink e.1.1 e.2)

/-- The candidates are rescaled with the clusters. -/
theorem candidates_rescale (clusters : List (Cluster α)) :
    Cluster.candidates (clusters.map (Cluster.rescale f)) =
      (Cluster.candidates clusters).map (Candidate.rescale f) := by
  simp only [Cluster.candidates, List.zipIdx_map, List.flatMap_map, List.map_flatMap]
  exact List.flatMap_congr fun e _ => hf.candidatesAt_rescale clusters e.1 e.2

/-- The better one of two candidates stays the better one. -/
theorem better_rescale (held offered : Candidate α) :
    (held.rescale f).better (offered.rescale f) = (held.better offered).rescale f := by
  have hheld : Scalar.isUndefined (f held.coupling) = Scalar.isUndefined held.coupling := by
    simp only [Scalar.isUndefined, hf.le_iff]
  have hle : f offered.coupling ≤ f held.coupling ↔ offered.coupling ≤ held.coupling := hf.le_iff
  simp only [Candidate.better, Candidate.rescale, hheld, hle]
  split
  · rfl
  · split <;> rfl

/-- The best candidate stays the best one. -/
theorem foldl_better_rescale (rest : List (Candidate α)) (c : Candidate α) :
    (rest.map (Candidate.rescale f)).foldl Candidate.better (c.rescale f) =
      (rest.foldl Candidate.better c).rescale f := by
  induction rest generalizing c with
  | nil => rfl
  | cons d rest ih => rw [List.map_cons, List.foldl_cons, hf.better_rescale, ih, List.foldl_cons]

/-- **The same pair is joined**, whichever pairs are equally close. -/
theorem closest?_rescale (clusters : List (Cluster α)) :
    Cluster.closest? (clusters.map (Cluster.rescale f)) =
      (Cluster.closest? clusters).map (Candidate.rescale f) := by
  rw [Cluster.closest?, hf.candidates_rescale, Cluster.closest?]
  cases Cluster.candidates clusters with
  | nil => rfl
  | cons c rest => exact congrArg some (hf.foldl_better_rescale rest c)

/-! ### Merges -/

/-- The coupling with a union is rescaled with the couplings with its parts. -/
theorem linkToUnion_rescale (i j : Nat) (c : Cluster α) :
    Cluster.linkToUnion i j (c.rescale f) = f (Cluster.linkToUnion i j c) := by
  have hget (k : Nat) : (c.links.map f).getD k 0 = f (c.links.getD k 0) := by
    rw [← hf.map_zero, List.getD_map, hf.map_zero]
  simp only [Cluster.linkToUnion, Cluster.rescale, hget, hf.map_add]

/-- A merge of rescaled clusters is the rescaled merge. -/
theorem join_rescale (clusters : List (Cluster α)) (i j : Nat) (union : Dendrogram α) (size : Nat) :
    Cluster.join (clusters.map (Cluster.rescale f)) i j (union.rescale f) size =
      (Cluster.join clusters i j union size).map (Cluster.rescale f) := by
  have hkeep (c : Cluster α) : Cluster.keep i j (c.rescale f) = (Cluster.keep i j c).rescale f := by
    simp only [Cluster.keep, hf.linkToUnion_rescale]
    simp only [Cluster.rescale, Cluster.dropTwo_map, List.map_append, List.map_cons, List.map_nil]
  simp only [Cluster.join, Cluster.dropTwo_map, List.map_map, List.map_append, List.map_cons,
    List.map_nil, Function.comp_def, hkeep, hf.linkToUnion_rescale]
  simp only [Cluster.rescale, List.map_append, List.map_map, List.map_cons, List.map_nil,
    Function.comp_def, hf.map_zero]

/-- **A merge is rescaled**: two trees are joined or refused as before. -/
theorem mergeStep?_rescale (iteration : Nat) (clusters : List (Cluster α)) (c : Candidate α) :
    mergeStep? iteration (clusters.map (Cluster.rescale f)) (c.rescale f) =
      (mergeStep? iteration clusters c).map fun next =>
        (next.1.rescale f, next.2.map (Cluster.rescale f)) := by
  have hfirst : (c.rescale f).first = c.first := rfl
  have hsecond : (c.rescale f).second = c.second := rfl
  simp only [mergeStep?, List.getElem?_map, hfirst, hsecond]
  cases clusters[c.first]? with
  | none => rfl
  | some a =>
      cases clusters[c.second]? with
      | none => rfl
      | some b =>
          have hunion := merge?_rescale (f := f)
            (clusterName iteration) a.tree b.tree c.coupling iteration
          simp only [Option.map_some, Cluster.rescale, Candidate.rescale, hunion]
          cases Dendrogram.merge? (clusterName iteration) a.tree b.tree c.coupling iteration with
          | error cause => rfl
          | ok union =>
              have hjoin := hf.join_rescale clusters c.first c.second union (a.size + b.size)
              have hevent : Event.merged iteration (a.tree.rescale f).name (b.tree.rescale f).name
                  (f c.coupling) ((clusters.map (Cluster.rescale f)).length - 1) =
                  (Event.merged iteration a.tree.name b.tree.name c.coupling
                    (clusters.length - 1)).rescale f := by
                rw [Dendrogram.name_rescale, Dendrogram.name_rescale, List.length_map,
                  Event.rescale]
              exact congrArg Except.ok (Prod.ext hevent hjoin)

/-- **A run of merges is rescaled.** Induction on the merges left. -/
theorem mergeLoop_rescale (stop : Nat → Bool) (left made : Nat) (clusters : List (Cluster α)) :
    mergeLoop stop left made (clusters.map (Cluster.rescale f)) =
      (mergeLoop stop left made clusters).rescale f := by
  have hcomplete (made : Nat) (clusters : List (Cluster α)) :
      MergeRun.complete made (clusters.map (Cluster.rescale f)) =
        (MergeRun.complete made clusters).rescale f := by
    cases clusters <;> rfl
  induction left generalizing made clusters with
  | zero => exact hcomplete made clusters
  | succ left ih =>
      unfold mergeLoop
      rw [hf.closest?_rescale, List.length_map]
      split
      · rfl
      · cases Cluster.closest? clusters with
        | none => exact hcomplete made clusters
        | some c =>
            simp only [Option.map_some, hf.mergeStep?_rescale]
            cases mergeStep? (made + 1) clusters c with
            | error cause => rfl
            | ok next =>
                simp only [Except.map, ih]
                rfl

/-! ### Runs -/

/-- The first clusters are rescaled with the matrix. -/
theorem singletons?_rescale (classes : List String) (matrix : List (List α)) :
    Cluster.singletons? classes (matrix.map (List.map f)) =
      (Cluster.singletons? classes matrix).map (List.map (Cluster.rescale f)) := by
  rw [Cluster.singletons?, Cluster.singletons?, List.zip_map_right]
  refine mapM_map_of_forall (fun e => ?_) _
  have hleaf := hf.ofClass?_rescale e.1
  simp only [Prod.map_fst, Prod.map_snd, id]
  cases hclass : Dendrogram.ofClass? (α := α) e.1 with
  | error cause => rfl
  | ok t =>
      rw [hclass] at hleaf
      have ht : t.rescale f = t := Except.ok.inj hleaf
      have hsingle : (⟨t, 1, e.2.map f⟩ : Cluster α) = (⟨t, 1, e.2⟩ : Cluster α).rescale f := by
        rw [Cluster.rescale, ht]
      exact congrArg Except.ok hsingle

/-- **A run** on a rescaled matrix is the rescaled run. -/
theorem runMerges_rescale (stop : Nat → Bool) (classes : List String) (matrix : List (List α)) :
    runMerges stop classes (matrix.map (List.map f)) =
      (runMerges stop classes matrix).rescale f := by
  unfold runMerges
  split
  · rfl
  · rw [hf.singletons?_rescale]
    cases Cluster.singletons? classes matrix with
    | error cause => rfl
    | ok clusters =>
        simp only [Except.map, hf.mergeLoop_rescale]
        rfl

/-- **The dendrogram of rescaled weights** is the dendrogram of the weights with every coupling
rescaled, or is refused for the same reason. -/
theorem buildDendrogram_rescale {ν : Type} (counts : OrderedMap ClassPair ν)
    (weights : CouplingWeights α) :
    buildDendrogram counts (weights.mapValues f) =
      (buildDendrogram counts weights).map (Option.map (Dendrogram.rescale f)) := by
  have hnd : (classesIn counts).Nodup := Text.nodup_members _
  have hmatrix := hf.weightMatrix_rescale hnd weights
  simp only [buildDendrogram, Clusterer.run, Clusterer.ofTables, hmatrix, hf.runMerges_rescale]
  rfl

end Rescaling

end Linkage
