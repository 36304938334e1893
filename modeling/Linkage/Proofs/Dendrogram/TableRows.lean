import Mathlib
import Linkage.Table.Analysis
import Linkage.Proofs.Dendrogram.Positions

/-!
# Reading a tree back from its table

The table of a dendrogram has a row for each node in the order of the walk. The columns that
name the children of a node do not identify them: a class may be called like an inner node, and
then two rows have one name. The order of the rows and the column that tells leaves from inner
nodes are enough. The rows of a leaf end after the first one, and the rows of an inner node end
where those of its second child do, so the rows of a stack of trees can be taken apart in one
way only.

Couplings may be compared as they are written, whatever the writing is: a tree is read back up
to couplings that are written alike.

## Main results

* `sameRow_iff`: what two rows have in common.
* `alike_of_sameRows_visit`: the rows of a stack determine its trees, by induction on the walk.
* `Alike.forall₂_nodes`: trees that are alike have the same rows.
* `dendrogramTable_determines_tree`: the table determines the tree.
-/

namespace Linkage

variable {α β : Type} {written : α → β}

/-! ### Cells as written -/

/-- Two cells are the **same as written**: they are equal, or scalars that are
written alike. -/
inductive SameAsWritten (written : α → β) : Value α → Value α → Prop
  /-- A cell is the same as itself. -/
  | refl (v : Value α) : SameAsWritten written v v
  /-- Scalars are compared in writing. -/
  | real {x y : α} (h : written x = written y) : SameAsWritten written (.real x) (.real y)

/-- Two tables have the **same rows as written**, in the same order. -/
def Table.SameRows (written : α → β) (s s' : Table α) : Prop :=
  List.Forall₂ (List.Forall₂ (SameAsWritten written)) s.rows s'.rows

/-- Numbers are the same as written when they are written alike. -/
@[simp] theorem sameAsWritten_real {x y : α} :
    SameAsWritten written (.real x) (.real y) ↔ written x = written y := by
  constructor
  · rintro (_ | h)
    · rfl
    · exact h
  · exact .real

/-- Cells that are no scalars are the same only when they are equal. -/
theorem sameAsWritten_iff_eq {v w : Value α} (h : ∀ x, v ≠ .real x) :
    SameAsWritten written v w ↔ v = w := by
  constructor
  · rintro (_ | _)
    · rfl
    · exact absurd rfl (h _)
  · rintro rfl
    exact .refl v

@[simp] theorem sameAsWritten_text {s s' : String} :
    SameAsWritten written (.text s) (.text s') ↔ s = s' := by
  simp [sameAsWritten_iff_eq]

@[simp] theorem sameAsWritten_flag {b b' : Bool} :
    SameAsWritten written (.flag b) (.flag b') ↔ b = b' := by
  simp [sameAsWritten_iff_eq]

@[simp] theorem sameAsWritten_int {n n' : ℤ} :
    SameAsWritten written (.int n) (.int n') ↔ n = n' := by
  simp [sameAsWritten_iff_eq]

/-- Texts that may be missing are the same as written when they are equal. -/
@[simp] theorem sameAsWritten_ofText? {s s' : Option String} :
    SameAsWritten written (Value.ofText? s) (Value.ofText? s') ↔ s = s' := by
  cases s <;> cases s' <;> simp [Value.ofText?, sameAsWritten_iff_eq]

namespace Dendrogram

/-! ### Rows -/

/-- **What two rows have in common** when they are the same as written. -/
theorem sameRow_iff {t u : Dendrogram α} :
    List.Forall₂ (SameAsWritten written) (nodeRow t) (nodeRow u) ↔
      t.name = u.name ∧ t.isLeaf = u.isLeaf ∧ t.left?.map name = u.left?.map name ∧
      t.right?.map name = u.right?.map name ∧ written t.coupling = written u.coupling ∧
      t.level = u.level ∧ t.classCount = u.classCount ∧
      Text.join ";" t.classes = Text.join ";" u.classes := by
  simp [nodeRow, classCell]

/-- Two trees are **alike**: they have one shape, and at every position their nodes have the
same name, the same level, and couplings that are written alike. -/
inductive Alike (written : α → β) : Dendrogram α → Dendrogram α → Prop
  /-- Two leaves. -/
  | leaf {n : String} {c c' : α} (hc : written c = written c') :
      Alike written (leaf n c) (leaf n c')
  /-- Two inner nodes with children that are alike. -/
  | node {n : String} {l l' r r' : Dendrogram α} {c c' : α} {k : ℕ} (hl : Alike written l l')
      (hr : Alike written r r') (hc : written c = written c') :
      Alike written (node n l r c k) (node n l' r' c' k)

/-- Two stacks have the same rows when their first trees have the same row, and the stacks that
a pass leaves have the same rows. -/
theorem sameRows_visit_cons_iff {t u : Dendrogram α} {ts us : List (Dendrogram α)} :
    List.Forall₂ (List.Forall₂ (SameAsWritten written)) ((visit (t :: ts)).map nodeRow)
        ((visit (u :: us)).map nodeRow) ↔
      List.Forall₂ (SameAsWritten written) (nodeRow t) (nodeRow u) ∧
        List.Forall₂ (List.Forall₂ (SameAsWritten written)) ((visit (t.children ++ ts)).map nodeRow)
          ((visit (u.children ++ us)).map nodeRow) := by
  rw [visit_cons, visit_cons, List.map_cons, List.map_cons, List.forall₂_cons]
  rfl

/-- **The rows of a stack determine its trees.** Induction on the walk: the first row tells
whether the first tree is a leaf, and what is left are the rows of the stack after it is taken
off. -/
theorem alike_of_sameRows_visit {ts us : List (Dendrogram α)}
    (h : List.Forall₂ (List.Forall₂ (SameAsWritten written)) ((visit ts).map nodeRow)
      ((visit us).map nodeRow)) : List.Forall₂ (Alike written) ts us := by
  induction ts using visit.induct generalizing us with
  | case1 =>
      obtain _ | ⟨u, us⟩ := us
      · exact .nil
      · simp [visit_cons, visit] at h
  | case2 n c rest ih =>
      obtain _ | ⟨u, us⟩ := us
      · simp [visit] at h
      obtain ⟨hrow, hrest⟩ := sameRows_visit_cons_iff.mp h
      obtain ⟨hname, hleaf, -, -, hcoupling, -⟩ := sameRow_iff.mp hrow
      cases u with
      | leaf n' c' =>
          obtain rfl : n = n' := hname
          exact .cons (.leaf hcoupling) (ih hrest)
      | node n' l' r' c' k' => exact absurd hleaf Bool.noConfusion
  | case3 n l r c k rest ih =>
      obtain _ | ⟨u, us⟩ := us
      · simp [visit] at h
      obtain ⟨hrow, hrest⟩ := sameRows_visit_cons_iff.mp h
      obtain ⟨hname, hleaf, -, -, hcoupling, hlevel, -⟩ := sameRow_iff.mp hrow
      cases u with
      | leaf n' c' => exact absurd hleaf Bool.noConfusion
      | node n' l' r' c' k' =>
          obtain rfl : n = n' := hname
          obtain rfl : k = k' := hlevel
          -- the rows that are left are those of the children and of the rest of the stack
          obtain ⟨hl, hr, hus⟩ : Alike written l l' ∧ Alike written r r' ∧
              List.Forall₂ (Alike written) rest us := by
            simpa [children] using ih hrest
          exact .cons (.node hl hr hcoupling) hus

/-! ### Trees that are alike -/

/-- Trees that are alike have one name. -/
theorem Alike.name_eq {t u : Dendrogram α} (h : Alike written t u) : t.name = u.name := by
  cases h <;> rfl

/-- Trees that are alike have the same classes. -/
theorem Alike.classes_eq {t u : Dendrogram α} (h : Alike written t u) : t.classes = u.classes := by
  induction h with
  | leaf hc => rfl
  | node hl hr hc ihl ihr => rw [classes, classes, ihl, ihr]

/-- Trees that are alike have the same first row. -/
theorem Alike.sameRow {t u : Dendrogram α} (h : Alike written t u) :
    List.Forall₂ (SameAsWritten written) (nodeRow t) (nodeRow u) := by
  have hclasses := h.classes_eq
  rw [sameRow_iff, classCount, classCount, hclasses]
  cases h with
  | leaf hc => exact ⟨rfl, rfl, rfl, rfl, hc, rfl, rfl, rfl⟩
  | node hl hr hc =>
      exact ⟨rfl, rfl, congrArg some hl.name_eq, congrArg some hr.name_eq, hc, rfl, rfl, rfl⟩

/-- The nodes of trees that are alike are alike, one by one. -/
theorem Alike.forall₂_nodes {t u : Dendrogram α} (h : Alike written t u) :
    List.Forall₂ (Alike written) t.nodes u.nodes := by
  induction h with
  | leaf hc => simpa using Alike.leaf hc
  | node hl hr hc ihl ihr =>
      rw [nodes_node, nodes_node]
      exact .cons (.node hl hr hc) (List.rel_append ihl ihr)

/-- Trees are alike with couplings as they are exactly when they are equal. -/
theorem alike_id_iff {t u : Dendrogram α} : Alike id t u ↔ t = u := by
  constructor
  · intro h
    induction h with
    | @leaf n c c' hc =>
        obtain rfl : c = c' := hc
        rfl
    | @node n l l' r r' c c' k hl hr hc ihl ihr =>
        obtain rfl : c = c' := hc
        rw [ihl, ihr]
  · rintro rfl
    induction t with
    | leaf n c => exact .leaf rfl
    | node n l r c k ihl ihr => exact .node ihl ihr rfl

end Dendrogram

open Dendrogram

/-! ### Tables -/

/-- Tables of trees have the same rows as written exactly when the trees are alike. -/
theorem sameRows_dendrogramTable_iff {root root' : Option (Dendrogram α)} :
    (dendrogramTable root).SameRows written (dendrogramTable root') ↔
      Option.Rel (Alike written) root root' := by
  simp only [Table.SameRows, dendrogramTable]
  constructor
  · intro h
    match root, root' with
    | none, none => exact .none
    | none, some u => exact absurd h (by simpa using List.ne_nil_of_mem u.self_mem_nodes)
    | some t, none => exact absurd h (by simpa using List.ne_nil_of_mem t.self_mem_nodes)
    | some t, some u =>
        obtain ⟨halike, -⟩ := List.forall₂_cons.mp (alike_of_sameRows_visit h)
        exact .some halike
  · rintro (halike | _)
    · exact List.rel_map (fun _ _ h => h.sameRow) halike.forall₂_nodes
    · exact .nil

/-- **The table of a dendrogram determines the tree**: tables with the same rows in the same
order are those of one tree, with the same shape and the same names, couplings and levels at
every position, also when a class is called like an inner node. When couplings are compared as
they are written, in whatever way, the trees are the same up to couplings that are written
alike. -/
theorem dendrogramTable_determines_tree (root root' : Option (Dendrogram α)) :
    ((dendrogramTable root).rows = (dendrogramTable root').rows ↔ root = root') ∧
    ∀ {β : Type} (written : α → β),
      (dendrogramTable root).SameRows written (dendrogramTable root') ↔
        Option.Rel (Alike written) root root' := by
  refine ⟨⟨fun h => ?_, fun h => by rw [h]⟩, fun written => sameRows_dendrogramTable_iff⟩
  have hsame : (dendrogramTable root).SameRows id (dendrogramTable root') := by
    rw [Table.SameRows, h]
    exact List.forall₂_same.mpr fun row _ => List.forall₂_same.mpr fun v _ => .refl v
  rcases sameRows_dendrogramTable_iff.mp hsame with halike | _
  · rw [alike_id_iff.mp halike]
  · rfl

end Linkage
