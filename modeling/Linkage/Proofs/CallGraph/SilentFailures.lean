import Mathlib
import Linkage.Proofs.CallGraph.CheckedDocuments
import Linkage.Proofs.CallGraph.TwoForms
import Linkage.Proofs.Json.Nesting
import Linkage.Proofs.Json.ReadLines
import Linkage.Proofs.Table.Records

/-!
# Failures without a word

A command tells its user why a call graph cannot be read when the failure has a wording. Not
all failures have one. A list has to be a list of records, and an item that is no sequence, a
name that is a list or an object and a number that is too large for a floating point number are
refused without a word. So are the same things on lines of objects, as which a text is read
that is no document.

These are all among the texts that are nested no deeper than the stack allows. What an object
lacks to be a call graph is told, and a table of records is an edge table unless it lacks a
required column, which is told: it has no two columns of the same name, and no row of bytes in
any cell.

## Nesting convention

How deep a document may be nested depends on the stack of the run. The number of levels that it
leaves for all that walks through a document, which are the reader, the wording of a failed
check and the text of a cell, is therefore a parameter of the reader, and what is said here
holds for every such number. A text that is nested deeper is left out. The reader of lines has
a limit of its own, which it tells.

## Main results

* `EdgeTable.not_failsSilently_graph`: tables that are edge tables, or are told why not.
* `CallGraph.ofDocumentText_failsSilently_iff`: the texts that are refused without a word.
* `CommandLine.loadCallGraph_failsSilently_iff`: the files that are refused without a word.
-/

namespace Linkage

/-! ### Tables of edges -/

namespace EdgeTable

variable {t : Table Float}

/-- A cell that is no row of bytes becomes a text, or nothing. -/
theorem exists_textCell_eq_ok {v : Value Float} (hv : ∀ bs, v ≠ .bytes bs) :
    ∃ w, textCell v = .ok w := by
  cases hmissing : v.isMissing with
  | true => exact ⟨_, (Says.missing hmissing).textCell_eq⟩
  | false => exact ⟨_, (Says.present hmissing hv).textCell_eq⟩

/-- The cells of a row in the required columns are cells of the row. -/
theorem mem_of_mem_requiredCells {row : List (Value Float)} {v : Value Float}
    (h : v ∈ requiredCells t row) : v ∈ row := by
  obtain ⟨c, -, h⟩ := List.mem_flatMap.mp h
  obtain ⟨⟨c', v'⟩, hcell, rfl⟩ := List.mem_map.mp h
  exact (List.of_mem_zip (List.mem_filter.mp hcell).1).2

/-- **A table without rows of bytes** is brought into form, unless it lacks a
required column. -/
theorem conform_cases (hcells : ∀ row ∈ t.rows, ∀ v ∈ row, ∀ bs, v ≠ .bytes bs) :
    (∃ rows, conform t = .ok ⟨required.flatMap fun c => t.columns.filter (· == c), rows⟩) ∨
      ∃ columns, conform t = .error (.lacking columns) := by
  have hrow : ∀ row ∈ t.rows, ∃ cells, (requiredCells t row).mapM textCell = .ok cells :=
    fun row hrow => exists_mapM_eq_ok fun v hv =>
      exists_textCell_eq_ok (hcells row hrow v (mem_of_mem_requiredCells hv))
  obtain ⟨rows, hrows⟩ := exists_mapM_eq_ok hrow
  unfold conform
  split
  · rw [hrows]
    exact .inl ⟨rows, rfl⟩
  · exact .inr ⟨_, rfl⟩

/-- A table with different columns has no required column more than once after it has been
brought into form. -/
theorem repeated?_eq_none (hcolumns : t.columns.Nodup) (rows : List (List (Value Float))) :
    repeated? ⟨required.flatMap fun c => t.columns.filter (· == c), rows⟩ = none := by
  have hcaller : t.columns.count callerColumn ≤ 1 := List.nodup_iff_count_le_one.mp hcolumns _
  have hcallee : t.columns.count calleeColumn ≤ 1 := List.nodup_iff_count_le_one.mp hcolumns _
  have hne : callerColumn ≠ calleeColumn := by decide
  have hcount : ∀ c ∈ required,
      (required.flatMap fun c => t.columns.filter (· == c)).count c = t.columns.count c := by
    simp [required, List.filter_beq, List.count_replicate, hne, hne.symm]
  rw [repeated?, hcount _ (by simp [required]), hcount _ (by simp [required])]
  rw [if_neg (by omega), if_neg (by simp; omega)]

/-- **A table with different columns and without rows of bytes** is an edge table, unless it
lacks a required column, which is told. -/
theorem not_failsSilently_graph (hcolumns : t.columns.Nodup)
    (hcells : ∀ row ∈ t.rows, ∀ v ∈ row, ∀ bs, v ≠ .bytes bs) :
    ¬FailsSilently message? (graph t) := by
  rcases conform_cases hcells with ⟨rows, hrows⟩ | ⟨columns, hlacking⟩
  · have hgraph : ∃ g, graph t = .ok g := by
      simp only [graph, hrows, bind, Except.bind, edges, repeated?_eq_none hcolumns]
      exact ⟨_, rfl⟩
    obtain ⟨g, hg⟩ := hgraph
    simp [hg]
  · have hgraph : graph t = .error (.lacking columns) := by
      rw [graph, hlacking]
      rfl
    simp [hgraph, message?]

end EdgeTable

/-! ### Tables of records -/

namespace Records

/-- The cells of a regular table hold no rows of bytes. -/
theorem Columns.Regular.not_bytes {c : Columns} (h : c.Regular) :
    ∀ row ∈ c.toTable.rows, ∀ v ∈ row, ∀ bs, v ≠ .bytes bs := by
  intro row hrow v hv bs hbytes
  obtain ⟨i, -, rfl⟩ := List.mem_map.mp hrow
  obtain ⟨column, hcolumn, rfl⟩ := List.mem_map.mp hv
  have hdocument : Json.IsDocument (column.getD i .null) := by
    rw [List.getD_eq_getElem?_getD]
    cases hi : column[i]? with
    | none => exact .null
    | some v => exact h.cells column hcolumn v (List.mem_of_getElem? hi)
  rw [hbytes] at hdocument
  cases hdocument

end Records

/-! ### Texts -/

namespace CallGraph

variable {levels : ℕ} {s path : String} {items : List (Value Float)} {e : SourceFault}

/-- A failure under another name is silent when it is under its own. -/
theorem failsSilently_named_iff {ε α : Type} {f : ε → SourceFault} {message? : ε → Option String}
    (hf : ∀ e, (f e).message? = message? e) {r : Except ε α} :
    FailsSilently SourceFault.message? (named f r) ↔ FailsSilently message? r := by
  cases r <;> simp [named, hf]

/-- A regular table is an edge table, or it is told why it is none. -/
theorem not_failsSilently_ofTable {c : Records.Columns} (hc : c.Regular) :
    ¬FailsSilently SourceFault.message? (ofTable c.toTable) := by
  rw [ofTable, failsSilently_named_iff fun _ => rfl]
  exact EdgeTable.not_failsSilently_graph hc.names hc.not_bytes

/-- What is made of records is refused without a word exactly when the records are. -/
theorem failsSilently_records_iff {r : Except RecordFault Records.Columns}
    {change : Records.Columns → Records.Columns} (hr : ∀ c, r = .ok c → (change c).Regular) :
    FailsSilently SourceFault.message?
        (named .records (r.map fun c => (change c).toTable) >>= ofTable) ↔
      FailsSilently RecordFault.message? r := by
  cases r with
  | error fault =>
      have hfails : (named .records ((Except.error fault : Except RecordFault Records.Columns).map
          fun c => (change c).toTable) >>= ofTable) = .error (.records fault) := rfl
      rw [hfails, failsSilently_error_iff, failsSilently_error_iff]
      rfl
  | ok c => exact iff_of_false (not_failsSilently_ofTable (hr c rfl)) (by simp)

/-- A list is refused without a word when its records are. -/
theorem ofDocument_list_failsSilently_iff (hitems : ∀ v ∈ items, Json.IsDocument v) :
    FailsSilently SourceFault.message? (ofDocument path (.list items)) ↔
      Records.Unrecorded items := by
  rw [← Records.ofItems_failsSilently_iff]
  exact @failsSilently_records_iff _ id fun c hc => Records.regular_of_ofItems hitems hc

/-- An object is a call graph, or it is told why it is none. -/
theorem not_failsSilently_ofDocument_map (es : List (Value Float × Value Float)) :
    ¬FailsSilently SourceFault.message? (ofDocument path (.map es)) := by
  rw [ofDocument, @failsSilently_named_iff _ _ _ (fun e => some e.message) fun _ => rfl]
  cases ofValue (unwrapped es) <;> simp

/-- Lines of objects are refused without a word when a field is named by a list or an object,
and when the records that begin with an object or a list are. -/
theorem ofLines_failsSilently_iff (hblank : (Text.trimBlanks s.toList).isEmpty = false) :
    FailsSilently SourceFault.message? (ofLines s) ↔
      Json.Lines.read s = .error .nameWithParts ∨
        ∃ items, Json.Lines.read s = .ok items ∧ Records.Unrecorded items ∧
          ∃ first ∈ items.head?, Records.isName first = false := by
  have hlines : ofLines s = (named SourceFault.lines (Json.Lines.read s) >>= fun items =>
      named SourceFault.records (Table.ofLines items) >>= ofTable) := by
    simp only [ofLines, hblank]
    rfl
  rw [hlines]
  cases hread : Json.Lines.read s with
  | error fault =>
      have hfault : FailsSilently SourceFault.message? (named SourceFault.lines
          (.error fault : Except Json.LineFault (List (Value Float))) >>= fun items =>
            named SourceFault.records (Table.ofLines items) >>= ofTable) ↔ fault.message? = none :=
        failsSilently_error_iff
      rw [hfault]
      cases fault <;> simp [Json.LineFault.message?]
  | ok items =>
      have hregular : ∀ c, Records.ofDocuments items = .ok c →
          Records.Columns.Regular { c with cells := c.cells.map Column.converted } := fun c hc => by
        have hc' := Records.regular_of_ofDocuments (Json.Lines.isDocument_of_read hread) hc
        exact ⟨hc'.names, List.forall_mem_map.mpr fun column hcolumn =>
          Column.isDocument_of_converted (hc'.cells column hcolumn)⟩
      have hrecords :=
        (failsSilently_records_iff hregular).trans Records.ofDocuments_failsSilently_iff
      refine hrecords.trans ⟨fun h => .inr ⟨items, rfl, h⟩, ?_⟩
      rintro (h | ⟨items', h, hrecords⟩)
      · cases h
      · obtain rfl := Except.ok.inj h
        exact hrecords

/-- A text **that is refused without a word**. -/
inductive Unreadable (levels : ℕ) (s : String) : Prop where
  /-- It is a list whose records are. -/
  | list {items : List (Value Float)}
      (hread : Json.readChars levels (Text.trimBlanks s.toList) = .ok (.list items))
      (h : Records.Unrecorded items) : Unreadable levels s
  /-- It is no document, and on its lines a field is named by a list or an object. -/
  | name (hread : Json.readChars levels (Text.trimBlanks s.toList) = .error .malformed)
      (hblank : (Text.trimBlanks s.toList).isEmpty = false)
      (h : Json.Lines.read s = .error .nameWithParts) : Unreadable levels s
  /-- It is no document, and the records on its lines, which begin with an object or a list,
  are. -/
  | lines (hread : Json.readChars levels (Text.trimBlanks s.toList) = .error .malformed)
      (hblank : (Text.trimBlanks s.toList).isEmpty = false) {items : List (Value Float)}
      (hlines : Json.Lines.read s = .ok items) (h : Records.Unrecorded items)
      (hfirst : ∃ first ∈ items.head?, Records.isName first = false) : Unreadable levels s

/-- Of the documents, lists alone are refused without a word. -/
theorem unreadable_iff_of_ok {v : Value Float}
    (hread : Json.readChars levels (Text.trimBlanks s.toList) = .ok v) :
    Unreadable levels s ↔ ∃ items, v = .list items ∧ Records.Unrecorded items := by
  constructor
  · intro h
    cases h with
    | list hread' h => exact ⟨_, Except.ok.inj (hread.symm.trans hread'), h⟩
    | name hread' => cases hread.symm.trans hread'
    | lines hread' => cases hread.symm.trans hread'
  · rintro ⟨items, rfl, h⟩
    exact .list hread h

/-- A text that is no document is refused without a word when its lines are. -/
theorem unreadable_iff_of_malformed
    (hread : Json.readChars levels (Text.trimBlanks s.toList) = .error .malformed)
    (hblank : (Text.trimBlanks s.toList).isEmpty = false) :
    Unreadable levels s ↔ Json.Lines.read s = .error .nameWithParts ∨
      ∃ items, Json.Lines.read s = .ok items ∧ Records.Unrecorded items ∧
        ∃ first ∈ items.head?, Records.isName first = false := by
  constructor
  · intro h
    cases h with
    | list hread' => cases hread.symm.trans hread'
    | name _ _ h => exact .inl h
    | lines _ _ hlines h hfirst => exact .inr ⟨_, hlines, h, hfirst⟩
  · rintro (h | ⟨items, hlines, h, hfirst⟩)
    · exact .name hread hblank h
    · exact .lines hread hblank hlines h hfirst

/-- A number of too many digits and an empty text are told: a text with one of them is not
refused without a word. -/
theorem not_unreadable (hread : ∀ v, Json.readChars levels (Text.trimBlanks s.toList) ≠ .ok v)
    (h : Json.readChars levels (Text.trimBlanks s.toList) ≠ .error .malformed ∨
      (Text.trimBlanks s.toList).isEmpty = true) : ¬Unreadable levels s := by
  intro hsilent
  cases hsilent with
  | list hread' => exact hread _ hread'
  | name hread' hblank => exact h.elim (fun h => h hread') fun h => by simp [hblank] at h
  | lines hread' hblank => exact h.elim (fun h => h hread') fun h => by simp [hblank] at h

/-- **The texts that are refused without a word**, among those that are not too deep. -/
theorem ofDocumentText_failsSilently_iff
    (hshallow : Json.readChars levels (Text.trimBlanks s.toList) ≠ .error .tooDeep) :
    FailsSilently SourceFault.message? (ofDocumentText levels path s) ↔ Unreadable levels s := by
  cases hblank : (Text.trimBlanks s.toList).isEmpty with
  | true =>
      have hread : ∀ v, Json.readChars levels (Text.trimBlanks s.toList) ≠ .ok v := by
        intro v h
        rw [Json.isEmpty_eq_false_of_readChars h] at hblank
        cases hblank
      exact iff_of_false (by simp [ofDocumentText, hblank]) (not_unreadable hread (.inr hblank))
  | false =>
      cases hread : Json.readChars levels (Text.trimBlanks s.toList) with
      | ok v =>
          have htext : ofDocumentText levels path s = ofDocument path v := by
            simp [ofDocumentText, hblank, hread]
          rw [htext, unreadable_iff_of_ok hread]
          cases Json.isDocument_of_readChars hread with
          | list hitems => simp [ofDocument_list_failsSilently_iff hitems]
          | object m _ =>
              exact iff_of_false (not_failsSilently_ofDocument_map _) (by simp [Value.record])
          | _ => simp [ofDocument, SourceFault.message?]
      | error fault =>
          cases fault with
          | tooLong digits =>
              refine iff_of_false ?_ (not_unreadable (by simp [hread]) (.inl (by simp [hread])))
              simp [ofDocumentText, hblank, hread, SourceFault.message?]
          | malformed =>
              have htext : ofDocumentText levels path s = ofLines s := by
                simp [ofDocumentText, hblank, hread]
              rw [htext, ofLines_failsSilently_iff hblank, unreadable_iff_of_malformed hread hblank]
          | tooDeep => exact absurd hread hshallow

/-- A failure under another name is one under that name. -/
theorem exists_of_named_eq_error {ε δ α : Type} {f : ε → δ} {r : Except ε α} {e : δ}
    (h : named f r = .error e) : ∃ e', e = f e' := by
  cases r with
  | ok x => cases h
  | error e' => exact ⟨e', (Except.error.inj h).symm⟩

/-- A text is never refused as a file is. -/
theorem ofDocumentText_ne_file (e : FileError) :
    ofDocumentText levels path s ≠ .error (.file e) := by
  have hnamed : ∀ {ε α : Type} {f : ε → SourceFault} {r : Except ε α},
      (∀ e', SourceFault.file e ≠ f e') →
      named f r ≠ .error (.file e) := fun hf h => by
    obtain ⟨e', he'⟩ := exists_of_named_eq_error h
    exact hf e' he'
  have htable : ∀ t, ofTable t ≠ .error (.file e) := fun t => hnamed fun _ h => by cases h
  have hrecords : ∀ r : Except RecordFault (Table Float),
      (named SourceFault.records r >>= ofTable) ≠ .error (.file e) := fun r h => by
    rcases bind_eq_error_iff.mp h with h | ⟨t, -, h⟩
    · exact hnamed (fun _ h => by cases h) h
    · exact htable t h
  intro h
  unfold ofDocumentText at h
  simp only at h
  split at h
  · cases h
  · split at h
    · next v _ =>
      unfold ofDocument at h
      split at h
      · exact hnamed (fun _ h => by cases h) h
      · exact hrecords _ h
      · cases h
    · unfold ofLines at h
      split at h
      · cases h
      · rcases bind_eq_error_iff.mp h with h | ⟨items, -, h⟩
        · exact hnamed (fun _ h => by cases h) h
        · exact hrecords _ h
    · cases h
    · cases h

end CallGraph

/-! ### Files -/

namespace CommandLine

variable {levels : ℕ} {t : FileTree} {location s : String}

/-- The check before the reading fails at a number of too many digits only, unless a text is
too deep. -/
theorem exists_of_checkedDocument_eq_error {e : SourceFault}
    (hshallow : Json.readChars levels (Text.trimBlanks s.toList) ≠ .error .tooDeep)
    (h : checkedDocument levels s = .error e) : ∃ digits, e = .tooLong digits := by
  unfold checkedDocument at h
  simp only at h
  split at h
  · cases h
  · split at h
    · cases h
    · cases h
    · cases h
    · next digits _ => exact ⟨digits, (Except.error.inj h).symm⟩
    · next hdeep => exact absurd hdeep hshallow

/-- What the check of a file refuses is told. -/
theorem message?_ne_none_of_checkCallGraph
    (hsuffix : Text.lowercase (FilePath.read location).suffix = ".json")
    (hread : t.readText (FilePath.read location) = .ok s)
    (hshallow : Json.readChars levels (Text.trimBlanks s.toList) ≠ .error .tooDeep)
    {f : CommandFailure} (h : checkCallGraph levels t location = .error f) : f.message? ≠ none := by
  simp only [checkCallGraph, hsuffix, hread, if_true] at h
  split at h
  · next e hchecked =>
    obtain ⟨digits, rfl⟩ := exists_of_checkedDocument_eq_error hshallow hchecked
    obtain rfl := Except.error.inj h
    exact fun hnone => by cases hnone
  · cases h
  · split at h
    · obtain rfl := Except.error.inj h
      exact fun hnone => by cases hnone
    · cases h

/-- A text that is refused without a word passes the check, which looks at objects only. -/
theorem checkCallGraph_eq_ok_of_unreadable
    (hsuffix : Text.lowercase (FilePath.read location).suffix = ".json")
    (hread : t.readText (FilePath.read location) = .ok s) (h : CallGraph.Unreadable levels s) :
    checkCallGraph levels t location = .ok () := by
  have hchecked : checkedDocument levels s = .ok none := by
    unfold checkedDocument
    simp only
    split
    · rfl
    · cases h with
      | list hread => simp only [hread]
      | name hread => simp only [hread]
      | lines hread => simp only [hread]
  simp only [checkCallGraph, hsuffix, hread, hchecked, if_true]
  rfl

/-- A failure to make a call graph of a text has the wording of its fault. -/
theorem message?_sourceFailure {path : String} {e : SourceFault}
    (h : CallGraph.ofDocumentText levels path s = .error e) :
    (sourceFailure location e).message? = e.message? := by
  cases e with
  | file e => exact absurd h (CallGraph.ofDocumentText_ne_file e)
  | _ => rfl

/-- A file that passes the check is read. -/
theorem loadCallGraph_of_check (hsuffix : Text.lowercase (FilePath.read location).suffix = ".json")
    (hread : t.readText (FilePath.read location) = .ok s)
    (hcheck : checkCallGraph levels t location = .ok ()) :
    loadCallGraph levels t location = CallGraph.named (sourceFailure location)
      (CallGraph.ofDocumentText levels (FilePath.read location).text s) := by
  rw [loadCallGraph, hcheck, ← CallGraph.load_eq_ofDocumentText hsuffix hread]
  cases CallGraph.load levels t (FilePath.read location) <;> rfl

/-- **The files that are refused without a word**: a file of documents that is nested no deeper
than the stack allows gives a call graph or a failure that is told, unless its text is one of
those that are refused without a word. -/
theorem loadCallGraph_failsSilently_iff
    (hsuffix : Text.lowercase (FilePath.read location).suffix = ".json")
    (hread : t.readText (FilePath.read location) = .ok s)
    (hnesting : Json.nesting s.toList ≤ levels) :
    FailsSilently CommandFailure.message? (loadCallGraph levels t location) ↔
      CallGraph.Unreadable levels s := by
  have hshallow : Json.readChars levels (Text.trimBlanks s.toList) ≠ .error .tooDeep :=
    Json.readChars_ne_tooDeep ((Json.nesting_trimBlanks_le _).trans hnesting)
  cases hcheck : checkCallGraph levels t location with
  | error f =>
      have hfails : loadCallGraph levels t location = .error f := by rw [loadCallGraph, hcheck]; rfl
      rw [hfails, failsSilently_error_iff]
      refine iff_of_false (message?_ne_none_of_checkCallGraph hsuffix hread hshallow hcheck)
        fun hsilent => ?_
      rw [checkCallGraph_eq_ok_of_unreadable hsuffix hread hsilent] at hcheck
      cases hcheck
  | ok _ =>
      rw [loadCallGraph_of_check hsuffix hread hcheck,
        ← @CallGraph.ofDocumentText_failsSilently_iff levels s
          (FilePath.read location).text hshallow]
      cases htext : CallGraph.ofDocumentText levels (FilePath.read location).text s with
      | ok g => simp [CallGraph.named]
      | error e => simp [CallGraph.named, message?_sourceFailure htext]

/-- A file with a list of null. -/
theorem loadCallGraph_failsSilently_iff_of_null :
    let t : FileTree := ⟨[], [], .insert .empty ["g.json"] (.text "[null]")⟩
    t.readText (FilePath.read "/g.json") = .ok "[null]" ∧ Json.nesting "[null]".toList = 1 ∧
      CallGraph.Unreadable 950 "[null]" ∧
      (FailsSilently CommandFailure.message? (loadCallGraph 950 t "/g.json") ↔
        CallGraph.Unreadable 950 "[null]") := by
  intro t
  have hsuffix : Text.lowercase (FilePath.read "/g.json").suffix = ".json" := by decide
  have hread : t.readText (FilePath.read "/g.json") = .ok "[null]" := by decide
  have hblanks : Text.trimBlanks "[null]".toList = ['[', 'n', 'u', 'l', 'l', ']'] := by cbv
  have hnull : Json.plainValue ['n', 'u', 'l', 'l', ']'] = .ok (.null, [']']) := by
    simp [Json.plainValue, Json.words, Json.afterWord?]
    rfl
  have hlist : Json.readChars 950 (Text.trimBlanks "[null]".toList) = .ok (.list [.null]) := by
    rw [hblanks]
    simp [Json.readChars, Json.readValue, Json.readItems, Json.skipSpace, Json.isSpace, hnull,
      Except.map, bind, Except.bind]
  have hsilent : CallGraph.Unreadable 950 "[null]" :=
    .list hlist (.parts (fun es h => by cases h) List.mem_cons_self rfl)
  have hnesting : Json.nesting "[null]".toList = 1 := by decide
  exact ⟨hread, hnesting, hsilent, loadCallGraph_failsSilently_iff hsuffix hread (by omega)⟩

/-- **A list of numbers** is refused without a word. -/
theorem loadCallGraph_of_number :
    let t : FileTree := ⟨[], [], .insert .empty ["g.json"] (.text "[1]")⟩
    t.readText (FilePath.read "/g.json") = .ok "[1]" ∧
      FailsSilently CommandFailure.message? (loadCallGraph 950 t "/g.json") := by
  intro t
  have hsuffix : Text.lowercase (FilePath.read "/g.json").suffix = ".json" := by decide
  have hread : t.readText (FilePath.read "/g.json") = .ok "[1]" := by decide
  have hblanks : Text.trimBlanks "[1]".toList = ['[', '1', ']'] := by cbv
  have hnumber : Json.plainValue ['1', ']'] = .ok (.int 1, [']']) := by
    simp [Json.plainValue, Json.words, Json.afterWord?, Json.numberBody, Json.wholeDigits,
      Json.fractionPart, Json.exponentPart, Json.digitsValue, maxIntegerDigits]
  have hlist : Json.readChars 950 (Text.trimBlanks "[1]".toList) = .ok (.list [.int 1]) := by
    rw [hblanks]
    simp [Json.readChars, Json.readValue, Json.readItems, Json.skipSpace, Json.isSpace, hnumber,
      Except.map, bind, Except.bind]
  have hcheck : checkCallGraph 950 t "/g.json" = .ok () :=
    checkCallGraph_eq_ok_of_unreadable hsuffix hread
    (.list hlist (.parts (fun es h => by cases h) List.mem_cons_self rfl))
  have htext : CallGraph.ofDocumentText 950 (FilePath.read "/g.json").text "[1]" =
      .error (.records .noParts) := by
    simp only [CallGraph.ofDocumentText, hlist]
    rw [hblanks]
    rfl
  refine ⟨hread, .callGraph (.records .noParts), ?_, rfl⟩
  rw [loadCallGraph_of_check hsuffix hread hcheck, htext]
  rfl

end CommandLine

end Linkage
