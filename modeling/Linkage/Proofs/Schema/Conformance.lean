import Mathlib
import Linkage.Proofs.Analysis
import Linkage.Proofs.Clustering.Shares
import Linkage.Proofs.Module.Cuts
import Linkage.Proofs.Schema.Rules
import Linkage.Schema.Check
import Linkage.Table.Analysis

/-!
# The tables of an analysis follow their schemas

Before the tables of an analysis are written, each is checked against the schema of its rows.
In exact arithmetic the check passes for every call graph and all parameters, and what this
takes is known from the stages of the analysis:

* the couplings of the nodes and the averages of the modules are shares
  (`isShare_coupling_of_run`, `averagePairwise_isShare`), so that the bounds of the schemas
  hold, and no such cell counts as missing;
* the tree is well-formed (`forest_of_run`), so that names are not empty, a leaf has no
  children and level zero, and the level of any other node is positive;
* modules are nodes of the tree (`Cutter.of_mem_modules`), so that they have classes, and no
  class has the empty name.

Both schemas begin with the rules of a closed object: all its fields are required, each has
rules of its own, and there are no others. Such an object follows them when its fields do
(`Schema.listViolations_record`), so that a row is gone through once, in the order of its
columns.

## Main results

* `Schema.checkTableWith_eq_ok`: a table passes when none of its rows violates the schema.
* `violations_moduleRow`, `violations_nodeRow`: the rows of modules and nodes follow their
  schemas.
* `analyse_conforms`: the tables of an analysis pass their checks.
-/

namespace Linkage

open Dendrogram

variable {α : Type} [Scalar α]

/-! ### Checks that pass -/

namespace Schema

/-- Records pass the check of a schema when none of them violates it. -/
theorem checkRecordsWith_eq_ok_iff {wording : Violation α → String} {name version : String}
    {s : Schema} (hs : find name version = .ok s) {records : List (Value α)} :
    checkRecordsWith wording name version records = .ok () ↔
      ∀ r ∈ records, s.violations r = [] := by
  rw [checkRecordsWith, hs, ← firstViolation_eq_none_iff]
  cases hviolation : firstViolation s records <;> simp [breachWith?, hviolation]

/-- A table passes the check of a schema when no row of it violates the schema. -/
theorem checkTableWith_eq_ok {plain : Value α → String} {wording : Violation α → String}
    {name version : String} {s : Schema} (hs : find name version = .ok s)
    {textColumns : List String} {t : Table α}
    (h : ∀ row ∈ t.rows, s.violations (rowRecord plain textColumns t row) = []) :
    checkTableWith plain wording name version textColumns t = .ok () := by
  have hrecords : ∀ r ∈ rowRecords plain textColumns t, s.violations r = [] := by
    intro r hr
    rw [rowRecords] at hr
    split at hr
    · cases hr
    · obtain ⟨row, hrow, rfl⟩ := List.mem_map.mp hr
      exact h row hrow
  rw [checkTableWith]
  split
  · rfl
  · exact (checkRecordsWith_eq_ok_iff hs).mpr hrecords

/-! ### Values that follow a schema -/

/-- A label that is not empty keeps the rules for labels. -/
theorem listViolations_label {s : String} (h : s ≠ "") :
    listViolations (.text s : Value α) label = [] :=
  listViolations_label_eq_nil_iff.mpr ⟨s, rfl, h⟩

/-- A positive number keeps the rules for sizes. -/
theorem listViolations_size {n : ℕ} (h : 0 < n) : listViolations (.int n : Value α) size = [] := by
  simpa [size, hasKind, isBelow] using h.ne'

/-- A natural number keeps the rules for ranks. -/
theorem listViolations_rank (n : ℕ) : listViolations (.int n : Value α) rank = [] := by
  simp [rank, hasKind, isBelow]

/-- A truth value is of the kind asked for. -/
theorem listViolations_boolean (b : Bool) :
    listViolations (.flag b : Value α) [.kinds [.boolean]] = [] := by
  simp [hasKind]

/-- A label that may be missing keeps the rules. -/
theorem listViolations_labelOrNull (name : Option String) :
    listViolations (.ofText? name : Value α) labelOrNull = [] := by
  cases name <;> simp [Value.ofText?, labelOrNull, hasKind]

/-- A share keeps the rules for shares. -/
theorem listViolations_share [ExactScalar α] {x : α} (h : IsShare x) :
    listViolations (.real x) share = [] := by
  have hzero : Scalar.ofInt? 0 = some (0 : α) :=
    (ExactScalar.ofInt?_natCast 0).trans (congrArg some ExactScalar.natCast_zero)
  have hone : Scalar.ofInt? 1 = some ((1 : ℕ) : α) := ExactScalar.ofInt?_natCast 1
  simp [share, hasKind, isBelow, isAbove, scalarBelow, scalarAbove, hzero, hone, h.not_lt_zero,
    h.not_one_lt]

end Schema

/-! ### Rows -/

section Rows

/-- The fields of the row of a module. -/
def moduleRecord (m : Module α) : List (String × Value α) :=
  [("module_id", .text m.id), ("node_id", .text m.nodeId), ("class_count", .int m.classCount),
    ("average_coupling", .real m.averageCoupling), ("classes", classCell m.classes)]

variable [ExactScalar α] (plain : Value α → String)

/-- The row of a module as an object. -/
theorem rowRecord_moduleRow (ms : List (Module α)) {m : Module α} (h : IsShare m.averageCoupling) :
    Schema.rowRecord plain Schema.moduleTexts (moduleTable ms) (moduleRow m) =
      .record (moduleRecord m) := by
  rw [Schema.rowRecord, OrderedMap.entries_ofList]
  · simp [Table.labelled, moduleTable, moduleRow, moduleRecord, classCell, Schema.cellValue,
      Value.isMissing, h.isUndefined, Schema.moduleTexts, Schema.asText]
  · simp [Table.labelled, moduleTable, moduleRow]

/-- The row of a module follows the schema of modules. -/
theorem violations_moduleRow (ms : List (Module α)) {m : Module α} (hid : m.id ≠ "")
    (hnode : m.nodeId ≠ "") (hclasses : Text.join ";" m.classes ≠ "") (hcount : 0 < m.classCount)
    (h : IsShare m.averageCoupling) :
    Schema.module.violations
      (Schema.rowRecord plain Schema.moduleTexts (moduleTable ms) (moduleRow m)) = [] := by
  have hnames : ((moduleRecord m).map Prod.fst).Nodup := by simp [moduleRecord]
  rw [rowRecord_moduleRow plain ms h]
  refine Schema.listViolations_record rfl hnames ?_
  exact .cons ⟨rfl, Schema.listViolations_label hid⟩ <|
    .cons ⟨rfl, Schema.listViolations_label hnode⟩ <|
    .cons ⟨rfl, Schema.listViolations_size hcount⟩ <|
    .cons ⟨rfl, Schema.listViolations_share h⟩ <|
    .cons ⟨rfl, Schema.listViolations_label hclasses⟩ .nil

/-- The fields of the row of a dendrogram node. -/
def nodeRecord (t : Dendrogram α) : List (String × Value α) :=
  [("node_id", .text t.name), ("is_leaf", .flag t.isLeaf),
    ("left", .ofText? (t.left?.map Dendrogram.name)),
    ("right", .ofText? (t.right?.map Dendrogram.name)), ("coupling", .real t.coupling),
    ("level", .int t.level), ("class_count", .int t.classCount), ("classes", classCell t.classes)]

/-- The row of a node as an object: a child that a leaf does not have is null. -/
theorem rowRecord_nodeRow (root : Option (Dendrogram α)) {t : Dendrogram α}
    (h : IsShare t.coupling) :
    Schema.rowRecord plain Schema.nodeTexts (dendrogramTable root) (nodeRow t) =
      .record (nodeRecord t) := by
  have hchild : ∀ name : Option String,
      Schema.cellValue (.ofText? name : Value α) = .ofText? name := by
    rintro (_ | name) <;> simp [Value.ofText?, Schema.cellValue, Value.isMissing]
  rw [Schema.rowRecord, OrderedMap.entries_ofList]
  · simp [Table.labelled, dendrogramTable, nodeRow, nodeRecord, classCell, hchild, Schema.cellValue,
      Value.isMissing, h.isUndefined, Schema.nodeTexts, Schema.asText]
  · simp [Table.labelled, dendrogramTable, nodeRow]

/-- The row of a node of a well-formed tree follows the schema of nodes. -/
theorem violations_nodeRow (root : Option (Dendrogram α)) {t : Dendrogram α} (ht : t.WellFormed)
    (hname : t.name ≠ "") (hclasses : Text.join ";" t.classes ≠ "") (h : IsShare t.coupling) :
    Schema.node.violations
      (Schema.rowRecord plain Schema.nodeTexts (dendrogramTable root) (nodeRow t)) = [] := by
  have hnames : ((nodeRecord t).map Prod.fst).Nodup := by simp [nodeRecord]
  rw [rowRecord_nodeRow plain root h]
  refine (Schema.listViolations_record ?_ hnames ?_).trans ?_
  · rfl
  · exact .cons ⟨rfl, Schema.listViolations_label hname⟩ <|
      .cons ⟨rfl, Schema.listViolations_boolean t.isLeaf⟩ <|
      .cons ⟨rfl, Schema.listViolations_labelOrNull _⟩ <|
      .cons ⟨rfl, Schema.listViolations_labelOrNull _⟩ <|
      .cons ⟨rfl, Schema.listViolations_share h⟩ <|
      .cons ⟨rfl, Schema.listViolations_rank t.level⟩ <|
      .cons ⟨rfl, Schema.listViolations_size t.classCount_pos⟩ <|
      .cons ⟨rfl, Schema.listViolations_label hclasses⟩ .nil
  · -- what is left is the branch on whether the node is a leaf
    have hleaf : Schema.listViolations (.record (nodeRecord t))
        [.fields [("is_leaf", [.constant (.flag true)])]] = [] ↔ t.isLeaf = true := by
      rw [Schema.listViolations_cons_eq_nil_iff, Schema.violations_fields_record_iff hnames]
      simp [nodeRecord, Schema.equals]
    rw [Schema.listViolations_cons_eq_nil_iff, Schema.Rule.violations_branch_eq_nil_iff]
    simp only [hleaf, Schema.listViolations_cons_eq_nil_iff,
      Schema.violations_fields_record_iff hnames]
    cases t with
    | leaf n c =>
        simp [nodeRecord, left?, right?, isLeaf, level, Value.ofText?, Schema.hasKind,
          Schema.equals]
    | node n l r c k =>
        have hlevel : 1 ≤ k := ht.2.1
        simp [nodeRecord, left?, right?, isLeaf, level, Value.ofText?, Schema.hasKind,
          Schema.isBelow, Nat.one_le_iff_ne_zero.mp hlevel]

end Rows

/-! ### Tables -/

/-- The cell of the classes of a well-formed tree is not empty. -/
theorem join_classes_ne_empty {t : Dendrogram α} (ht : t.WellFormed) :
    Text.join ";" t.classes ≠ "" := by
  cases hclasses : t.classes with
  | nil => exact absurd hclasses t.classes_ne_nil
  | cons x rest =>
      have hx : x ≠ "" := ht.ne_empty_of_mem_classes (hclasses ▸ List.mem_cons_self)
      cases rest with
      | nil => simpa [Text.join] using hx
      | cons y rest => simp [Text.join, String.intercalate_cons_cons, hx]

section Tables

variable [ExactScalar α] (plain : Value α → String) (wording : Schema.Violation α → String)

/-- The table of the nodes of a dendrogram passes the check when the tree is well-formed and
its couplings are shares. -/
theorem checkTableWith_dendrogramTable {root : Option (Dendrogram α)}
    (hroot : ∀ t, root = some t → t.WellFormed ∧ ∀ v ∈ t.nodes, IsShare v.coupling) :
    Schema.checkTableWith plain wording "dendrogram" Schema.version Schema.nodeTexts
      (dendrogramTable root) = .ok () := by
  refine Schema.checkTableWith_eq_ok
    (Schema.find_version "dendrogram" Schema.node rfl) fun row hrow => ?_
  cases root with
  | none => cases hrow
  | some t =>
      obtain ⟨ht, hshares⟩ := hroot t rfl
      obtain ⟨v, hv, rfl⟩ := List.mem_map.mp hrow
      have hwf : v.WellFormed := ht.of_mem_nodes hv
      exact violations_nodeRow plain (some t) hwf hwf.name_ne_empty (join_classes_ne_empty hwf)
        (hshares v hv)

/-- A table of modules passes the check when they are nodes of a well-formed tree and the
weights are shares. -/
theorem checkTableWith_moduleTable {weights : CouplingWeights α}
    (hw : ∀ x ∈ weights.values, IsShare x) {naming : String} {modules : List (Module α)}
    (h : ∀ m ∈ modules, ∃ v : Dendrogram α, v.WellFormed ∧ m = moduleOf weights naming v) :
    Schema.checkTableWith plain wording "module" Schema.version Schema.moduleTexts
      (moduleTable modules) = .ok () := by
  refine Schema.checkTableWith_eq_ok
    (Schema.find_version "module" Schema.module rfl) fun row hrow => ?_
  obtain ⟨m, hm, rfl⟩ := List.mem_map.mp hrow
  obtain ⟨v, hv, rfl⟩ := h m hm
  have hid : (moduleOf weights naming v).id ≠ "" := by simp [moduleOf, Module.ofNode]
  exact violations_moduleRow plain modules hid hv.name_ne_empty (join_classes_ne_empty hv)
    v.classCount_pos (averagePairwise_isShare hw v.classes)

end Tables

/-- **The tables of an analysis follow their schemas**, in exact arithmetic, for every call
graph and all parameters: the threshold may be unbounded or undefined, the naming empty. The
analysis returns, and the checks of its table of modules and of its table of nodes pass,
however what is wrong would be worded. -/
theorem analyse_conforms [ExactScalar α] (g : CallGraph) (parameters : Parameters α)
    (plain : Value α → String) (wording : Schema.Violation α → String) :
    (∃ a, (analyse g parameters fun _ => false).result = .ok a) ∧
    ∀ stop a, (analyse g parameters stop).result = .ok a →
      Schema.checkTableWith plain wording "module" Schema.version Schema.moduleTexts
        (moduleTable a.modules) = .ok () ∧
      Schema.checkTableWith plain wording "dendrogram" Schema.version Schema.nodeTexts
        (dendrogramTable a.dendrogram) = .ok () := by
  refine ⟨exists_analysis g parameters, fun stop a ha => ?_⟩
  obtain ⟨s, hs, -, hw⟩ := CouplingSummary.exists_shares (α := α) g
  obtain ⟨-, -, hrun, hmodules⟩ := stages_of_analyse hs ha
  have hwf : ∀ t, a.dendrogram = some t → t.WellFormed := fun t ht =>
    (forest_of_run ExactScalar.zero_beq_zero (ht ▸ hrun)).wellFormed t (by simp)
  have hnodes : ∀ m ∈ a.modules,
      ∃ v : Dendrogram α, v.WellFormed ∧ m = moduleOf s.weights parameters.naming v := by
    intro m hm
    rw [hmodules] at hm
    obtain ⟨t, v, ht, hv, hmv⟩ := Cutter.of_mem_modules hm
    exact ⟨v, (hwf t ht).of_mem_nodes hv, hmv⟩
  refine ⟨checkTableWith_moduleTable plain wording hw hnodes,
    checkTableWith_dendrogramTable plain wording fun t ht => ?_⟩
  exact ⟨hwf t ht, isShare_coupling_of_run hw (ht ▸ hrun)⟩

/-- Under an undefined threshold the classes of a chain of two calls are one module, whose name
has no prefix; its row passes, and so do the rows of the five nodes. -/
theorem analyse_conforms_of_undefined_threshold :
    let g : CallGraph := .ofList [("a.f", ["b.g"]), ("b.g", ["c.h"])]
    let parameters : Parameters Extended := ⟨.undefined, true, ""⟩
    ∃ a, (analyse g parameters fun _ => false).result = .ok a ∧
      (moduleTable a.modules).rows.length = 1 ∧ (dendrogramTable a.dendrogram).rows.length = 5 ∧
      Schema.checkTableWith (fun _ => "") (fun _ => "") "module" Schema.version Schema.moduleTexts
        (moduleTable a.modules) = .ok () ∧
      Schema.checkTableWith (fun _ => "") (fun _ => "") "dendrogram" Schema.version Schema.nodeTexts
        (dendrogramTable a.dendrogram) = .ok () := by
  intro g parameters
  obtain ⟨⟨a, ha⟩, hpass⟩ := analyse_conforms g parameters (fun _ => "") (fun _ => "")
  have hrows : (analyse g parameters fun _ => false).result.map (fun a =>
      ((moduleTable a.modules).rows.length, (dendrogramTable a.dendrogram).rows.length)) =
        .ok (1, 5) := by
    subst g parameters
    cbv
  rw [ha] at hrows
  obtain ⟨hmodules, hnodes⟩ := Prod.mk.inj (Except.ok.inj hrows)
  exact ⟨a, ha, hmodules, hnodes, hpass _ a ha⟩

end Linkage
