import Mathlib
import Linkage.CallGraph.EdgeTable
import Linkage.Proofs.CallGraph.Documents
import Linkage.Proofs.Outcome

/-!
# One call graph in two forms

A call graph can be given as a document, in which every caller has its list of callees, and as
a table with an edge in each row. A table *lists* a document when its edges are those from the
callers to their callees: every caller has a row, and a row with neither a caller nor a callee
that the document does not have. Such a table is read as the same call graph, whatever the
order of its rows, how often they are repeated, and whatever else its columns and its rows
without a caller hold.

A table is read row by row. One row adds at most a caller and a call (`mem_keys_addEdge`,
`calls_addEdge`), so that by induction on the rows all of them add their callers and their
calls.

## Main results

* `EdgeTable.mem_keys_graphOf`, `EdgeTable.calls_graphOf`: the callers and the calls of a list
  of edges.
* `EdgeTable.graph_eq_ok`: the call graph of a table is that of the edges in its rows.
* `graph_sameCalls_ofValue`: a table and the document that it lists are one call graph.
-/

namespace Linkage

open CallGraph

namespace EdgeTable

/-! ### Edges -/

section Edges

variable {g : CallGraph} {es : List CallEdge} {caller callee : String}

/-- An edge adds its caller, if it has one. -/
theorem mem_keys_addEdge {e : CallEdge} :
    caller ∈ (addEdge g e).keys ↔ caller ∈ g.keys ∨ e.1 = some caller := by
  obtain ⟨_ | c, x⟩ := e
  · simp [addEdge]
  · simp [addEdge, OrderedMap.mem_keys_insert, eq_comm]

/-- An edge adds the call from its caller to its callee, if it has both. -/
theorem calls_addEdge {e : CallEdge} :
    (addEdge g e).Calls caller callee ↔ g.Calls caller callee ∨ e = (some caller, some callee) := by
  obtain ⟨_ | c, x⟩ := e
  · simp [addEdge]
  · simp only [addEdge, calls_iff_mem_getD, OrderedMap.getD, OrderedMap.get?_insert, Prod.mk.injEq,
      Option.some.injEq]
    by_cases hc : c = caller
    · subst hc
      simp
    · simp [hc]

/-- The callers of a list of edges. -/
theorem mem_keys_foldl_addEdge :
    caller ∈ (es.foldl addEdge g).keys ↔ caller ∈ g.keys ∨ ∃ x, (some caller, x) ∈ es := by
  induction es generalizing g with
  | nil => simp
  | cons e rest ih =>
      rw [List.foldl_cons, ih, mem_keys_addEdge, or_assoc]
      refine or_congr_right ⟨?_, ?_⟩
      · rintro (hcaller | ⟨x, hx⟩)
        · exact ⟨e.2, List.mem_cons.mpr (.inl (Prod.ext hcaller.symm rfl))⟩
        · exact ⟨x, List.mem_cons_of_mem e hx⟩
      · rintro ⟨x, hx⟩
        rcases List.mem_cons.mp hx with rfl | hx
        · exact .inl rfl
        · exact .inr ⟨x, hx⟩

/-- The calls of a list of edges. -/
theorem calls_foldl_addEdge :
    (es.foldl addEdge g).Calls caller callee ↔
      g.Calls caller callee ∨ (some caller, some callee) ∈ es := by
  induction es generalizing g with
  | nil => simp
  | cons e rest ih => rw [List.foldl_cons, ih, calls_addEdge, or_assoc, List.mem_cons, eq_comm]

/-- The keys of the graph of some edges are the callers of the edges. -/
theorem mem_keys_graphOf : caller ∈ (graphOf es).keys ↔ ∃ x, (some caller, x) ∈ es := by
  rw [graphOf, mem_keys_foldl_addEdge]
  exact or_iff_right List.not_mem_nil

/-- The calls of the graph of some edges are the edges with a caller and a callee. -/
theorem calls_graphOf : (graphOf es).Calls caller callee ↔ (some caller, some callee) ∈ es := by
  rw [graphOf, calls_foldl_addEdge]
  refine or_iff_right ?_
  rintro ⟨_, hentry, -⟩
  exact List.not_mem_nil hentry

end Edges

/-! ### Tables -/

/-- What a cell **says**: nothing when it is missing, and else its plain text, which of a text
is the text itself. Rows of bytes are left out, as they need not be texts. -/
inductive Says : Value Float → Option String → Prop where
  /-- A missing cell. -/
  | missing {v : Value Float} (h : v.isMissing = true) : Says v none
  /-- A cell that is not missing. -/
  | present {v : Value Float} (h : v.isMissing = false) (hbytes : ∀ bs, v ≠ .bytes bs) :
    Says v (some v.plain)

/-- A text says itself. -/
theorem Says.text (s : String) : Says (.text s) (some s) :=
  .present rfl fun _ h => by cases h

/-- A cell is read as what it says. -/
theorem Says.textCell_eq {v : Value Float} {x : Option String} (h : Says v x) :
    textCell v = .ok (.ofText? x) := by
  unfold textCell
  cases h with
  | missing h => rw [if_pos h]; rfl
  | present h hbytes =>
      rw [if_neg (by simp [h])]
      split
      · exact absurd rfl (hbytes _)
      · rfl

/-- A row **holds** an edge when its cells in the columns of callers and callees say what the
edge is. -/
structure Holds (t : Table Float) (row : List (Value Float)) (e : CallEdge) : Prop where
  /-- The cell in the column of callers. -/
  caller : ∃ v, (callerColumn, v) ∈ t.labelled row ∧ Says v e.1
  /-- The cell in the column of callees. -/
  callee : ∃ v, (calleeColumn, v) ∈ t.labelled row ∧ Says v e.2

/-- A **table of edges**: it has a column of callers and one of callees, among others and in
any order, and an edge in each row. -/
structure IsTableOf (t : Table Float) (es : List CallEdge) : Prop where
  /-- There is one column of callers. -/
  count_caller : t.columns.count callerColumn = 1
  /-- There is one column of callees. -/
  count_callee : t.columns.count calleeColumn = 1
  /-- The rows hold the edges. -/
  rows : List.Forall₂ (Holds t) t.rows es

section Tables

variable {t : Table Float} {row : List (Value Float)} {e : CallEdge} {es : List CallEdge}

/-- A row has no more cells under a name than there are columns of that name. -/
theorem length_filter_zip_le (c : String) (columns : List String) (row : List (Value Float)) :
    ((columns.zip row).filter fun cell => cell.1 == c).length ≤ columns.count c := by
  induction columns generalizing row with
  | nil => simp
  | cons column rest ih =>
      cases row with
      | nil => simp
      | cons v row =>
          have hrest := ih row
          by_cases hc : column = c <;> simp [hc] <;> omega

/-- A row has one cell in a column that occurs once. -/
theorem filter_labelled_eq {c : String} {v : Value Float} (hcount : t.columns.count c = 1)
    (hv : (c, v) ∈ t.labelled row) :
    ((t.labelled row).filter fun cell => cell.1 == c) = [(c, v)] := by
  have hcells : ((t.labelled row).filter fun cell => cell.1 == c).length ≤ 1 :=
    hcount ▸ length_filter_zip_le c t.columns row
  have hmem : (c, v) ∈ (t.labelled row).filter fun cell => cell.1 == c := by simp [hv]
  obtain ⟨cell, hcell⟩ :=
    List.length_eq_one_iff.mp (le_antisymm hcells (List.length_pos_of_mem hmem))
  rw [hcell] at hmem ⊢
  rw [List.mem_singleton.mp hmem]

/-- The required cells of a row that holds an edge are read as the edge. -/
theorem Holds.mapM_textCell (h : Holds t row e) (hcaller : t.columns.count callerColumn = 1)
    (hcallee : t.columns.count calleeColumn = 1) :
    (requiredCells t row).mapM textCell = .ok [.ofText? e.1, .ofText? e.2] := by
  obtain ⟨⟨v, hv, hsays⟩, w, hw, hsays'⟩ := h
  have hcells : requiredCells t row = [v, w] := by
    simp [requiredCells, required, filter_labelled_eq hcaller hv, filter_labelled_eq hcallee hw]
  rw [hcells]
  exact mapM_eq_ok_iff.mpr (.cons hsays.textCell_eq (.cons hsays'.textCell_eq .nil))

/-- **A table of edges in form** has the two columns and the edges, and nothing else. -/
theorem conform_eq_ok (h : IsTableOf t es) :
    conform t = .ok ⟨required, es.map fun e => [.ofText? e.1, .ofText? e.2]⟩ := by
  have hcolumn : ∀ c ∈ required, t.columns.count c = 1 := by
    simpa [required] using ⟨h.count_caller, h.count_callee⟩
  have hlacking : lacking t.columns = [] := by
    have hnone : (required.filter fun c => !t.columns.contains c) = [] := by
      rw [List.filter_eq_nil_iff]
      intro c hc
      have hmem : c ∈ t.columns := List.count_pos_iff.mp (by rw [hcolumn c hc]; exact one_pos)
      simp [hmem]
    rw [lacking, hnone, Text.members_of_pairwise_lt List.Pairwise.nil]
  have hcolumns : (required.flatMap fun c => t.columns.filter (· == c)) = required := by
    simp [required, List.filter_beq, h.count_caller, h.count_callee]
  have hrows : (t.rows.mapM fun row => (requiredCells t row).mapM textCell) =
      .ok (es.map fun e => [.ofText? e.1, .ofText? e.2]) := by
    refine mapM_eq_ok_iff.mpr ?_
    rw [List.forall₂_map_right_iff]
    exact h.rows.imp fun row e hrow => hrow.mapM_textCell h.count_caller h.count_callee
  rw [conform, hlacking, hrows, hcolumns]
  rfl

/-- The edges of a table in form are read off its rows. -/
theorem edges_eq_ok (es : List CallEdge) :
    edges ⟨required, es.map fun e => [.ofText? e.1, .ofText? e.2]⟩ = .ok es := by
  have hedge : ∀ (rows : List (List (Value Float))) (e : CallEdge),
      edge ⟨required, rows⟩ [.ofText? e.1, .ofText? e.2] = e := by
    rintro rows ⟨_ | caller, _ | callee⟩ <;> rfl
  rw [edges]
  simp only [List.map_map, Function.comp_def, hedge, List.map_id']
  rfl

/-- **The call graph of a table** is that of the edges in its rows. -/
theorem graph_eq_ok (h : IsTableOf t es) : graph t = .ok (graphOf es) := by
  rw [graph, conform_eq_ok h]
  simp only [bind, Except.bind, edges_eq_ok]
  rfl

end Tables

end EdgeTable

/-! ### Documents -/

/-- The document that lists callees of callers, some of which may be null. -/
def listingDocument (m : OrderedMap String (List (Option String))) : Value Float :=
  .record (m.mapValues fun callees => .list (callees.map .ofText?)).entries

/-- Edges **list** a document when those with a caller are the edges from its callers to their
callees: every caller has an edge, be it without a callee, and none has others. -/
structure Lists (es : List CallEdge) (m : OrderedMap String (List (Option String))) : Prop where
  /-- The callers of the edges are those of the document. -/
  callers : ∀ caller, caller ∈ m.keys ↔ ∃ x, (some caller, x) ∈ es
  /-- The calls of the edges are those of the document. -/
  calls : ∀ caller callee, (∃ callees, (caller, callees) ∈ m.entries ∧ some callee ∈ callees) ↔
    (some caller, some callee) ∈ es

/-- The call graph of a document has its callers, each with the callees that are not null. -/
theorem ofValue_listingDocument (m : OrderedMap String (List (Option String))) :
    CallGraph.ofValue (listingDocument m) = .ok (m.mapValues List.reduceOption) := by
  have hitems : ∀ callees : List (Option String),
      CallGraph.calleeItems? (.list (callees.map .ofText?)) = some (callees.map .ofText?) :=
    fun _ => rfl
  have hcallee : CallGraph.calleeOf? ∘ Value.ofText? = id := by
    funext x
    cases x <;> rfl
  rw [listingDocument, ofValue_record hitems]
  simp only [List.filterMap_map, hcallee]
  rfl

/-- **A table and the document that it lists are one call graph.** Both are read, and as graphs
with the same callers, each with the same set of callees, whatever the order of the rows and of
the columns, how often rows are repeated, and whatever other columns and rows without a caller
there are. -/
theorem graph_sameCalls_ofValue {t : Table Float} {es : List CallEdge}
    {m : OrderedMap String (List (Option String))} (ht : EdgeTable.IsTableOf t es)
    (h : Lists es m) :
    ∃ g g', EdgeTable.graph t = .ok g ∧ CallGraph.ofValue (listingDocument m) = .ok g' ∧
      g.SameCalls g' := by
  refine ⟨_, _, EdgeTable.graph_eq_ok ht, ofValue_listingDocument m, sameCalls_iff.mpr ⟨?_, ?_⟩⟩
  · intro caller
    rw [EdgeTable.mem_keys_graphOf, ← h.callers, OrderedMap.keys_mapValues]
  · intro caller callee
    rw [EdgeTable.calls_graphOf, ← h.calls]
    simp [Calls, OrderedMap.mapValues, List.reduceOption_mem_iff]

/-- The columns stand in another order and around a further one, a call is repeated, and a row
without a caller names a callee that the document does not have. -/
theorem graph_sameCalls_ofValue_of_shuffled_table :
    let m : OrderedMap String (List (Option String)) :=
      ⟨[("a.f", [some "b.g", none, some "b.h"]), ("c.h", [])], by decide⟩
    let t : Table Float :=
      ⟨["callee", "note", "caller"],
        [[.text "b.h", .int 1, .text "a.f"], [.null, .null, .text "c.h"],
          [.text "x.y", .flag true, .absent], [.text "b.g", .null, .text "a.f"],
          [.text "b.h", .null, .text "a.f"]]⟩
    ∃ g g', EdgeTable.graph t = .ok g ∧ CallGraph.ofValue (listingDocument m) = .ok g' ∧
      g.SameCalls g' := by
  intro m t
  have ht : EdgeTable.IsTableOf t [(some "a.f", some "b.h"), (some "c.h", none), (none, some "x.y"),
      (some "a.f", some "b.g"), (some "a.f", some "b.h")] := by
    refine ⟨by decide, by decide, ?_⟩
    refine .cons ⟨⟨_, ?_, .text _⟩, _, ?_, .text _⟩
      (.cons ⟨⟨_, ?_, .text _⟩, _, ?_, .missing (v := .null) rfl⟩
      (.cons ⟨⟨_, ?_, .missing (v := .absent) rfl⟩, _, ?_, .text _⟩
        (.cons ⟨⟨_, ?_, .text _⟩, _, ?_, .text _⟩
        (.cons ⟨⟨_, ?_, .text _⟩, _, ?_, .text _⟩ .nil))))
    all_goals simp [t, Table.labelled, EdgeTable.callerColumn, EdgeTable.calleeColumn]
  refine graph_sameCalls_ofValue ht ⟨fun caller => ?_, fun caller callee => ?_⟩
  · simp [m, OrderedMap.keys, exists_or]
    tauto
  · simp [m, or_and_right, exists_or]
    tauto

end Linkage
