import Mathlib
import Linkage.Proofs.Clustering.Growth
import Linkage.Proofs.Coupling.Shares
import Linkage.Report.Graph

/-!
# The renderings of a coupling graph agree

A coupling graph is rendered as a drawing, as a document, as separated fields and as a summary.
The drawing leaves out the pairs whose weight is below the threshold, and the other renderings
keep the pairs whose weight is at least the threshold. The two conditions are the same for
weights that compare with the threshold. Then all renderings have the same pairs with the same
counts, each pair once, and the totals that are printed are the number of these pairs.

An undefined scalar compares with none, and the command line takes one for a threshold that is
not negative. Then the drawing has every pair and the other renderings have none.

## Main results

* `drawn_perm_edges_iff`: when the pairs that are drawn are those at or above the threshold.
* `renderable_of_callGraph`: the graph of a call graph has defined weights and counts that are
  words.
* `renderings_agree`: the pairs, the counts and the totals of all renderings.
* `renderings_of_isUndefined`: the renderings for an undefined threshold.
-/

namespace Linkage

/-! ### Reading renderings back -/

/-- What every rendering has of a pair: its two classes and its number of calls. -/
abbrev RenderedPair := String × String × Int

/-- The classes and the calls of a pair. -/
def Edge.rendered {α : Type} (e : Edge α) : RenderedPair := (e.source, e.target, e.count)

section

variable {α : Type}

/-- The pair of an item of a document. -/
def readItem : Value α → Option RenderedPair
  | .map fields =>
    match Value.field? "source" fields, Value.field? "target" fields,
      Value.field? "count" fields with
    | some (.text s), some (.text t), some (.int n) => some (s, t, n)
    | _, _, _ => none
  | _ => none

/-- The pairs of a document. -/
def readDocument : Value α → Option (List RenderedPair)
  | .map fields =>
    match Value.field? "edges" fields with
    | some (.list items) => items.mapM readItem
    | _ => none
  | _ => none

/-- The pair of a row, whose cells are found by the names of their columns. -/
def readRow (t : Table α) (row : List (Value α)) : Option RenderedPair :=
  match t.select ["Source", "Target", "Count"] row with
  | [.text s, .text u, .int n] => some (s, u, n)
  | _ => none

/-- The pairs of a table. -/
def readTable (t : Table α) : Option (List RenderedPair) := t.rows.mapM (readRow t)

end

/-- When every step has a result, so has the list of them. -/
theorem mapM_eq_some {β γ : Type} {step : β → Option γ} {result : β → γ} {xs : List β}
    (h : ∀ x ∈ xs, step x = some (result x)) : xs.mapM step = some (xs.map result) := by
  induction xs with
  | nil => rfl
  | cons x rest ih =>
      rw [List.mapM_cons, h x List.mem_cons_self, ih fun y hy => h y (List.mem_cons_of_mem x hy)]
      rfl

namespace CouplingGraph

/-! ### The pairs that are kept and those that are drawn -/

section

variable {α : Type} (g : CouplingGraph α)

/-- The pair of an entry of the table. -/
def edgeOf (e : ClassPair × α) : Edge α := ⟨e.1.1, e.1.2, g.countOf e.1, e.2⟩

/-- Different entries of the table are different edges. -/
theorem edgeOf_injective : Function.Injective g.edgeOf := by
  rintro ⟨⟨a, b⟩, x⟩ ⟨⟨c, d⟩, y⟩ h
  simp only [edgeOf, Edge.mk.injEq] at h
  obtain ⟨rfl, rfl, -, rfl⟩ := h
  rfl

variable {g}

/-- All classes are visible when there is room for them. -/
theorem visible_eq {maxNodes : Int} (hroom : (g.classes.length : Int) ≤ maxNodes) :
    g.visible maxNodes = g.classes :=
  List.take_of_length_le (by omega)

end

section

variable {α : Type} [Scalar α] {g : CouplingGraph α} {maxNodes : Int}

/-- The pairs that are kept are the entries at or above the threshold, in another order. -/
theorem edges_perm (minWeight : α) : (g.edges minWeight).Perm
    ((g.weights.entries.filter fun e => decide (minWeight ≤ e.2)).map g.edgeOf) := by
  have hsorted : g.pairs.Perm (g.weights.entries.map g.edgeOf) := List.mergeSort_perm _ _
  refine (hsorted.filter _).trans (List.Perm.of_eq ?_)
  rw [List.filter_map]
  rfl

/-- The pairs that are drawn are the entries not below the threshold, in another order, when
there is room for all classes. -/
theorem drawn_perm (hroom : (g.classes.length : Int) ≤ maxNodes) (minWeight : α) :
    (g.drawn minWeight maxNodes).Perm
      ((g.weights.entries.filter fun e => !decide (e.2 < minWeight)).map g.edgeOf) := by
  refine (((List.mergeSort_perm _ _).filter _).trans (List.Perm.of_eq ?_)).map g.edgeOf
  refine List.filter_congr fun e he => ?_
  have hkey : e.1 ∈ g.weights.keys := List.mem_map.mpr ⟨e, he, rfl⟩
  have hsource : e.1.1 ∈ g.classes := left_mem_classesIn hkey
  have htarget : e.1.2 ∈ g.classes := right_mem_classesIn hkey
  rw [visible_eq hroom, List.contains_iff_mem.mpr hsource, List.contains_iff_mem.mpr htarget]
  rfl

/-- **The pairs that are drawn are those at or above the threshold** exactly when every weight
is either below the threshold or at least the threshold. -/
theorem drawn_perm_edges_iff (hroom : (g.classes.length : Int) ≤ maxNodes) (minWeight : α) :
    (g.drawn minWeight maxNodes).Perm (g.edges minWeight) ↔
      ∀ x ∈ g.weights.values, minWeight ≤ x ↔ ¬ x < minWeight := by
  constructor
  · intro h x hx
    obtain ⟨e, he, rfl⟩ := List.mem_map.mp hx
    have hmem := ((drawn_perm hroom minWeight).symm.trans (h.trans (edges_perm minWeight))).mem_iff
      (a := g.edgeOf e)
    simp only [List.mem_map_of_injective g.edgeOf_injective, List.mem_filter, he, true_and,
      Bool.not_eq_true', decide_eq_false_iff_not, decide_eq_true_eq] at hmem
    exact hmem.symm
  · intro h
    refine (drawn_perm hroom minWeight).trans (List.Perm.trans (List.Perm.of_eq ?_)
      (edges_perm minWeight).symm)
    refine congrArg (List.map g.edgeOf) (List.filter_congr fun e he => ?_)
    have hiff := h e.2 (List.mem_map.mpr ⟨e, he, rfl⟩)
    rw [Bool.eq_iff_iff]
    simp [hiff]

/-- The pairs that are kept are distinct. -/
theorem nodup_edges (minWeight : α) :
    ((g.edges minWeight).map fun e => (e.source, e.target)).Nodup := by
  refine (((edges_perm minWeight).map _).nodup_iff).mpr ?_
  rw [List.map_map]
  exact g.weights.distinct.sublist (List.filter_sublist.map Prod.fst)

/-- A pair is kept with its count exactly when its weight is at or above the threshold. -/
theorem mem_rendered_edges_iff {minWeight : α} {a b : String} {n : Int} :
    (a, b, n) ∈ (g.edges minWeight).map Edge.rendered ↔
      ∃ x, g.weights.get? (a, b) = some x ∧ minWeight ≤ x ∧ n = g.countOf (a, b) := by
  rw [((edges_perm minWeight).map Edge.rendered).mem_iff, List.map_map, List.mem_map]
  constructor
  · rintro ⟨⟨⟨a', b'⟩, x⟩, he, heq⟩
    obtain ⟨hmem, hle⟩ := List.mem_filter.mp he
    simp only [Function.comp_apply, edgeOf, Edge.rendered, Prod.mk.injEq] at heq
    obtain ⟨rfl, rfl, rfl⟩ := heq
    exact ⟨x, OrderedMap.get?_eq_some_iff.mpr hmem, of_decide_eq_true hle, rfl⟩
  · rintro ⟨x, hget, hle, rfl⟩
    exact ⟨((a, b), x), List.mem_filter.mpr ⟨OrderedMap.get?_eq_some_iff.mp hget,
      decide_eq_true hle⟩, rfl⟩

/-- The pairs of a document are the pairs that are kept. -/
theorem readDocument_payload (minWeight : α) (time : String) :
    readDocument (g.payload minWeight time) = some ((g.edges minWeight).map Edge.rendered) := by
  have hitems : readDocument (g.payload minWeight time) =
      ((g.edges minWeight).map fun e =>
        .record [("source", .text e.source), ("target", .text e.target),
          ("weight", .real e.weight), ("count", .int e.count)]).mapM readItem := by
    rfl
  rw [hitems, List.mapM_map]
  exact List.mapM_pure

end

/-! ### Texts -/

section

variable {g : CouplingGraph Float}

/-- The rows of the separated fields are the pairs that are kept, when all counts are words. -/
theorem separated?_eq (hcounts : ∀ p ∈ g.weights.keys, Word.isSigned (g.countOf p) = true)
    (minWeight : Float) :
    ∃ t, g.separated? minWeight = some (Table.separated t) ∧
      readTable t = some ((g.edges minWeight).map Edge.rendered) := by
  have hsigned : ∀ e ∈ g.pairs, Word.isSigned e.count = true := by
    intro e he
    obtain ⟨entry, hentry, rfl⟩ := List.mem_map.mp ((List.mergeSort_perm _ _).mem_iff.mp he)
    exact hcounts _ (List.mem_map.mpr ⟨entry, hentry, rfl⟩)
  have hstored : storedUnsigned (g.pairs.map Edge.count) = false := by
    have hnone : (g.pairs.map Edge.count).any (fun n => decide ((Word.half : Int) ≤ n)) =
        false := by
      rw [List.any_eq_false]
      intro n hn
      obtain ⟨e, he, rfl⟩ := List.mem_map.mp hn
      have hword := of_decide_eq_true (hsigned e he)
      simpa using hword.2
    rw [storedUnsigned, hnone, Bool.and_false]
  have hrow : ∀ e ∈ g.edges minWeight,
      (wordCount? false e.count).map (separatedRow e) = some (separatedRow e e.count) := by
    intro e he
    rw [wordCount?, if_neg Bool.false_ne_true, if_pos (hsigned e (List.mem_filter.mp he).1)]
    rfl
  refine ⟨⟨["Source", "Target", "Weight", "Count", "Percentage"],
    (g.edges minWeight).map fun e => separatedRow e e.count⟩, ?_, ?_⟩
  · simp only [separated?, hstored, mapM_eq_some hrow, Option.map_some]
  · rw [readTable, List.mapM_map]
    exact mapM_eq_some fun e _ => rfl

/-- The lines of a drawing before those of its pairs: how it is drawn, and a line for each
class. -/
def drawingHead (g : CouplingGraph Float) : List String :=
  ["digraph CouplingGraph \x7b", "  rankdir=LR;",
    "  node [shape=box, style=filled, fillcolor=lightblue];", "  edge [fontsize=10];", ""] ++
  g.classes.map nodeLine ++ [""]

/-- The lines of a drawing after those of its pairs, which are counted in it. -/
def drawingTail (g : CouplingGraph Float) (count : ℕ) : List String :=
  ["", s!"  // Total edges: {count}", "  // Total inter-class calls: " ++ toString g.total, "\x7d"]

/-- A drawing with room for all classes has a line for each class and one for each pair. -/
theorem drawing_eq {maxNodes : Int} (hroom : (g.classes.length : Int) ≤ maxNodes)
    (minWeight : Float) :
    g.drawing minWeight maxNodes = Text.join "\n" (g.drawingHead ++
      (g.drawn minWeight maxNodes).map drawnLine ++
        g.drawingTail (g.drawn minWeight maxNodes).length) ++ "\n" := by
  rw [drawing, visible_eq hroom]
  rfl

/-- The fifth line of a summary has the number of pairs that are kept. -/
theorem exists_summary_eq (g : CouplingGraph Float) (minWeight : Float) :
    ∃ before after, before.length = 4 ∧ g.summary minWeight =
      Text.join "\n" (before ++
        s!"Edges at or above threshold: {(g.edges minWeight).length}" :: after) ++ "\n" :=
  ⟨["=== COUPLING GRAPH SUMMARY ===", "", "Total inter-class calls: " ++ toString g.total,
    "Minimum weight threshold: " ++ fixedPlaces 4 minWeight], _, rfl, rfl⟩

/-- A graph is **renderable** when its weights are defined and its counts are words. -/
structure Renderable (g : CouplingGraph Float) : Prop where
  /-- The weights are defined. -/
  defined : ∀ x ∈ g.weights.values, Scalar.isUndefined x = false
  /-- The counts are words of 64 bits with a sign. -/
  words : ∀ p ∈ g.weights.keys, Word.isSigned (g.countOf p) = true

/-- **The graph of a call graph is renderable** when the number of its calls has at most 53
bits. -/
theorem renderable_of_callGraph {c : CallGraph} {s : CouplingSummary Float}
    (hs : CouplingSummary.ofGraph? c = some s) (hlt : s.total < 2 ^ 53) :
    Renderable ⟨s.counts, s.weights, s.total⟩ := by
  obtain ⟨weights, hweights, rfl⟩ := Option.map_eq_some_iff.mp hs
  have htotal : totalCalls (countCalls c) < 2 ^ 53 := hlt
  have hpos : ∀ n ∈ (countCalls c).values, 0 < n := fun _ hn => pos_of_mem_values_countCalls hn
  obtain ⟨weights', hweights', -, hshares⟩ := exists_shares_float hpos htotal
  obtain rfl : weights' = weights := Option.some.inj (hweights'.symm.trans hweights)
  constructor
  · intro x hx
    simp [Scalar.isUndefined, (float_defined_of_le (hshares x hx).1).2]
  · intro p _
    rw [Word.isSigned, decide_eq_true_iff, countOf, OrderedMap.getD]
    cases hget : (countCalls c).get? p with
    | none => decide
    | some n =>
        have hmem := OrderedMap.mem_values_of_get? hget
        have hle := le_totalCalls hpos hmem
        have hhalf : (Word.half : Int) = 2 ^ 63 := rfl
        have hn := hpos n hmem
        simp only [Option.getD_some, hhalf]
        omega

/-- **The renderings of a renderable graph agree** for every threshold that is defined, when
there is room for all classes. Each pair is kept once, with its count, exactly when its weight
is at or above the threshold. The drawing has the pairs that are kept, one line for each, and
so have the document and the separated fields. The totals printed in the drawing and in the
summary are the number of these pairs. -/
theorem renderings_agree {minWeight : Float} {maxNodes : Int} (time : String) (hg : g.Renderable)
    (hroom : (g.classes.length : Int) ≤ maxNodes) (hmin : Scalar.isUndefined minWeight = false) :
    let kept := (g.edges minWeight).map Edge.rendered
    (kept.map fun p => (p.1, p.2.1)).Nodup ∧
    (∀ a b n, (a, b, n) ∈ kept ↔
      ∃ x, g.weights.get? (a, b) = some x ∧ minWeight ≤ x ∧ n = g.countOf (a, b)) ∧
    ((g.drawn minWeight maxNodes).map Edge.rendered).Perm kept ∧
    readDocument (g.payload minWeight time) = some kept ∧
    (∃ t, g.separated? minWeight = some (Table.separated t) ∧ readTable t = some kept) ∧
    g.drawing minWeight maxNodes = Text.join "\n" (g.drawingHead ++
      (g.drawn minWeight maxNodes).map drawnLine ++ g.drawingTail kept.length) ++ "\n" ∧
    ∃ before after, before.length = 4 ∧ g.summary minWeight =
      Text.join "\n" (before ++ s!"Edges at or above threshold: {kept.length}" :: after) ++
        "\n" := by
  intro kept
  have hdrawn : (g.drawn minWeight maxNodes).Perm (g.edges minWeight) :=
    (drawn_perm_edges_iff hroom minWeight).mpr fun x hx => le_iff_not_lt hmin (hg.defined x hx)
  have hlength : kept.length = (g.edges minWeight).length := List.length_map _
  refine ⟨?_, fun a b n => mem_rendered_edges_iff, hdrawn.map _,
    readDocument_payload minWeight time, separated?_eq hg.words minWeight, ?_, ?_⟩
  · rw [List.map_map]
    exact nodup_edges minWeight
  · rw [hlength, ← hdrawn.length_eq]
    exact drawing_eq hroom minWeight
  · rw [hlength]
    exact exists_summary_eq g minWeight

/-- Of two pairs one reaches the threshold `3 / 10`, and every rendering has it and
no other. -/
theorem renderings_agree_of_two_pairs :
    let g : CouplingGraph Float :=
      .ofTable (.ofList [(("p.A", "p.B"), 3), (("p.A", "p.C"), 1)])
        (.ofList [(("p.A", "p.B"), 3 / 4), (("p.A", "p.C"), 1 / 4)]) none
    g.Renderable ∧ (g.classes.length : Int) ≤ 3 ∧ Scalar.isUndefined (3 / 10 : Float) = false ∧
      ((g.drawn (3 / 10) 3).map Edge.rendered).Perm [("p.A", "p.B", 3)] ∧
      readDocument (g.payload (3 / 10) "2024-01-01T00:00:00+00:00") = some [("p.A", "p.B", 3)] := by
  intro g
  have hg : g.Renderable := ⟨by decide +kernel, by decide +kernel⟩
  have hroom : (g.classes.length : Int) ≤ 3 := by
    have hclasses : Text.members ["p.A", "p.B", "p.A", "p.C"] = ["p.A", "p.B", "p.C"] := by cbv
    have hmembers : g.classes = Text.members ["p.A", "p.B", "p.A", "p.C"] := rfl
    rw [hmembers, hclasses]
    decide
  have hmin : Scalar.isUndefined (3 / 10 : Float) = false := by decide +kernel
  have hentries :
    ((g.weights.entries.filter fun e => decide ((3 / 10 : Float) ≤ e.2)).map g.edgeOf).map
      Edge.rendered = [("p.A", "p.B", 3)] := by decide +kernel
  have hkept : (g.edges (3 / 10)).map Edge.rendered = [("p.A", "p.B", 3)] :=
    List.perm_singleton.mp (hentries ▸ (edges_perm (3 / 10)).map Edge.rendered)
  obtain ⟨-, -, hdrawn, hdocument, -⟩ := renderings_agree "2024-01-01T00:00:00+00:00" hg hroom hmin
  rw [hkept] at hdrawn hdocument
  exact ⟨hg, hroom, hmin, hdrawn, hdocument⟩

/-! ### An undefined threshold -/

/-- For an undefined threshold no pair is kept, and every pair is drawn. -/
theorem renderings_of_isUndefined {minWeight : Float} {maxNodes : Int}
    (hmin : Scalar.isUndefined minWeight = true) (hroom : (g.classes.length : Int) ≤ maxNodes) :
    g.edges minWeight = [] ∧
      (g.drawn minWeight maxNodes).Perm (g.weights.entries.map g.edgeOf) := by
  constructor
  · exact List.filter_eq_nil_iff.mpr fun e _ => by simp [(not_le_of_isUndefined hmin e.weight).1]
  · refine (drawn_perm hroom minWeight).trans (List.Perm.of_eq (congrArg _ ?_))
    exact List.filter_eq_self.mpr fun e _ => by simp [(not_le_of_isUndefined hmin e.2).2]

/-- An undefined threshold is not below zero. One pair is drawn, and the document, the
separated fields and the summary have none. -/
theorem drawn_of_undefined_threshold :
    let g : CouplingGraph Float :=
      .ofTable (.ofList [(("p.A", "p.B"), 1)]) (.ofList [(("p.A", "p.B"), 1)]) none
    let minWeight : Float := 0 / 0
    ¬ minWeight < 0 ∧ (g.classes.length : Int) ≤ 50 ∧
      (g.drawn minWeight 50).map Edge.rendered = [("p.A", "p.B", 1)] ∧
      readDocument (g.payload minWeight "2024-01-01T00:00:00+00:00") = some [] ∧
      g.edges minWeight = [] := by
  intro g minWeight
  have hmin : Scalar.isUndefined minWeight = true := by decide +kernel
  have hroom : (g.classes.length : Int) ≤ 50 := by
    have hclasses : g.classes = ["p.A", "p.B"] := by cbv
    rw [hclasses]
    decide
  obtain ⟨hedges, hdrawn⟩ := renderings_of_isUndefined hmin hroom
  refine ⟨by decide +kernel, hroom, List.perm_singleton.mp (hdrawn.map Edge.rendered), ?_, hedges⟩
  · rw [readDocument_payload, hedges]
    rfl

end

end CouplingGraph

end Linkage
