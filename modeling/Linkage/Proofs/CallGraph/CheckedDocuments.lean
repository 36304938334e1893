import Mathlib
import Linkage.CommandLine.Session
import Linkage.Proofs.CallGraph.Documents
import Linkage.Proofs.Json.ReadObjects
import Linkage.Proofs.Schema.Rules

/-!
# Documents that pass the check

Before a call graph is read from a document, the document is checked against the schema of call
graphs. The check and the reading take it apart on their own: both look for the field that may
hold the call graph, but the check asks for kinds of values, and the reading asks for lists and
turns what it finds into texts.

A document passes when what it holds as its call graph maps callers to lists of texts that are
not empty, or to null. As names in an object do not repeat, reading such a document gives its
callers and what is listed for each of them, and leaves no room for a failure or for a change.

## Main results

* `Schema.violations_callGraph_eq_nil_iff`: the documents that follow the schema of call
  graphs.
* `CallGraph.ofValue_callGraphDocument`: the call graph of such a document.
* `CommandLine.checkCallGraph_eq_ok_iff`: the files that pass the check.
* `CommandLine.load_of_checkCallGraph`: what is read from a file that passes.
-/

namespace Linkage

/-! ### Values of one form -/

section

variable {κ ν μ : Type} {f : μ → ν} {p : μ → Prop}

/-- A list whose elements are all of a form is the list of that form of some elements. -/
theorem exists_map_eq {xs : List ν} (h : ∀ v ∈ xs, ∃ x, v = f x ∧ p x) :
    ∃ ys : List μ, xs = ys.map f ∧ ∀ y ∈ ys, p y := by
  induction xs with
  | nil => exact ⟨[], rfl, by simp⟩
  | cons v rest ih =>
      obtain ⟨⟨x, rfl, hx⟩, hrest⟩ := List.forall_mem_cons.mp h
      obtain ⟨ys, rfl, hys⟩ := ih hrest
      exact ⟨x :: ys, rfl, List.forall_mem_cons.mpr ⟨hx, hys⟩⟩

/-- A map whose values are all of a form is the map of that form of some values. -/
theorem OrderedMap.exists_mapValues_eq {m : OrderedMap κ ν}
    (h : ∀ e ∈ m.entries, ∃ x, e.2 = f x ∧ p x) :
    ∃ m' : OrderedMap κ μ, m = m'.mapValues f ∧ ∀ x ∈ m'.values, p x := by
  have hentries : ∀ e ∈ m.entries, ∃ e' : κ × μ, e = (e'.1, f e'.2) ∧ p e'.2 := by
    intro e he
    obtain ⟨x, hx, hp⟩ := h e he
    exact ⟨(e.1, x), Prod.ext rfl hx, hp⟩
  obtain ⟨es, hes, hp⟩ := exists_map_eq hentries
  have hkeys : m.entries.map Prod.fst = es.map Prod.fst := by
    rw [hes, List.map_map]
    rfl
  refine ⟨⟨es, hkeys ▸ m.distinct⟩, eq_of_entries_eq hes, fun x hx => ?_⟩
  obtain ⟨e, he, rfl⟩ := List.mem_map.mp hx
  exact hp e he

end

/-! ### Documents that follow the schema -/

/-- The document of callers with a list of callees each, or with null. -/
def callGraphDocument (m : OrderedMap String (Option (List String))) : Value Float :=
  .record (m.mapValues fun callees => callees.elim .null Value.texts).entries

namespace Schema

variable {v : Value Float}

/-- A value is a list of labels when it is a list of texts that are not empty. -/
theorem listViolations_labels_eq_nil_iff :
    listViolations v labels = [] ↔ ∃ xs, v = .texts xs ∧ "" ∉ xs := by
  rw [labels, listViolations_cons_eq_nil_iff, Rule.violations_kinds_eq_nil_iff]
  cases v with
  | list xs =>
      rw [listViolations_cons_eq_nil_iff, Rule.violations_items_eq_nil_iff]
      simp only [listViolations_label_eq_nil_iff]
      constructor
      · rintro ⟨-, hitems, -⟩
        obtain ⟨texts, rfl, htexts⟩ := exists_map_eq hitems
        exact ⟨texts, rfl, fun hempty => htexts "" hempty rfl⟩
      · rintro ⟨texts, hxs, htexts⟩
        cases hxs
        refine ⟨rfl, fun x hx => ?_, rfl⟩
        obtain ⟨s, hs, rfl⟩ := List.mem_map.mp hx
        exact ⟨s, rfl, fun hempty => htexts (hempty ▸ hs)⟩
  | _ => simp [hasKind, Value.texts]

/-- What a caller may have in a document: a list of labels, or null. -/
theorem listViolations_callees_eq_nil_iff :
    listViolations v [.oneOf [labels, [.kinds [.null]]]] = [] ↔
      ∃ callees : Option (List String), v = callees.elim .null Value.texts ∧
        ∀ xs, callees = some xs → "" ∉ xs := by
  rw [listViolations_cons_eq_nil_iff, Rule.violations_oneOf_eq_nil_iff]
  simp only [List.mem_cons, List.not_mem_nil, or_false, exists_eq_or_imp, exists_eq_left,
    listViolations_labels_eq_nil_iff, listViolations_cons_eq_nil_iff, listViolations_nil, and_true,
    Rule.violations_kinds_eq_nil_iff]
  constructor
  · rintro (⟨xs, rfl, hxs⟩ | hnull)
    · exact ⟨some xs, rfl, fun _ h => Option.some.inj h ▸ hxs⟩
    · cases v with
      | null => exact ⟨none, rfl, fun _ h => by cases h⟩
      | _ => simp [hasKind] at hnull
  · rintro ⟨_ | xs, rfl, hxs⟩
    · exact .inr rfl
    · exact .inl ⟨xs, rfl, hxs xs rfl⟩

/-- An object follows the schema of call graphs when each of its fields has what a caller may
have. -/
theorem violations_callGraph_record_iff {fields : List (String × Value Float)} :
    callGraph.violations (.record fields) = [] ↔
      ∀ f ∈ fields, ∃ callees : Option (List String), f.2 = callees.elim .null Value.texts ∧
        ∀ xs, callees = some xs → "" ∉ xs := by
  rw [violations, callGraph, listViolations_cons_eq_nil_iff, listViolations_cons_eq_nil_iff,
    Value.record, Rule.violations_kinds_eq_nil_iff, Rule.violations_otherFields_eq_nil_iff]
  simp only [List.forall_mem_map, isAmong, listViolations_callees_eq_nil_iff,
    listViolations_nil, and_true]
  exact ⟨fun h f hf => h.2 f hf rfl, fun h => ⟨rfl, fun f hf _ => h f hf⟩⟩

/-- **The documents that follow the schema of call graphs** are those of callers with a list of
texts that are not empty, or with null. -/
theorem violations_callGraph_eq_nil_iff (hv : Json.IsDocument v) :
    callGraph.violations v = [] ↔
      ∃ m, v = callGraphDocument m ∧ ∀ callees, some callees ∈ m.values → "" ∉ callees := by
  constructor
  · intro h
    cases v with
    | map es =>
        obtain ⟨fields, hfields, -⟩ := hv.exists_of_map
        rw [hfields, violations_callGraph_record_iff] at h
        obtain ⟨m, rfl, hm⟩ := OrderedMap.exists_mapValues_eq h
        exact ⟨m, hfields, fun callees hcallees => hm _ hcallees callees rfl⟩
    | _ =>
        rw [violations, callGraph, listViolations_cons_eq_nil_iff,
          Rule.violations_kinds_eq_nil_iff] at h
        simp [hasKind] at h
  · rintro ⟨m, rfl, hm⟩
    refine violations_callGraph_record_iff.mpr fun f hf => ?_
    obtain ⟨e, he, rfl⟩ := List.mem_map.mp hf
    exact ⟨e.2, rfl, fun xs hxs => hm xs (hxs ▸ List.mem_map_of_mem he)⟩

end Schema

/-- **The call graph of such a document** has its callers, each with the callees listed for it,
and with none where there is null. -/
theorem CallGraph.ofValue_callGraphDocument (m : OrderedMap String (Option (List String))) :
    CallGraph.ofValue (callGraphDocument m) = .ok (m.mapValues fun callees => callees.getD []) := by
  have hitems : ∀ callees : Option (List String),
      CallGraph.calleeItems? (callees.elim .null Value.texts) =
        some ((callees.getD []).map Value.text) := by
    rintro (_ | callees) <;> rfl
  have hcallee : CallGraph.calleeOf? ∘ Value.text = some := rfl
  rw [callGraphDocument, ofValue_record hitems]
  simp only [List.filterMap_map, hcallee, List.filterMap_some]

/-! ### Files that pass the check -/

/-- A field of an object is a document. -/
theorem Json.IsDocument.of_field? {es : List (Value Float × Value Float)} {name : String}
    {v : Value Float}
    (h : IsDocument (.map es)) (hv : Value.field? name es = some v) : IsDocument v := by
  obtain ⟨m, hm, hfields⟩ := h.exists_of_map
  cases hm
  exact hfields _ ((Schema.field?_record_iff m.distinct).mp hv)

/-- What an object holds as its call graph is a document. -/
theorem Json.IsDocument.unwrapped {es : List (Value Float × Value Float)}
    (h : IsDocument (.map es)) : IsDocument (CallGraph.unwrapped es) := by
  unfold CallGraph.unwrapped
  cases hv : Value.field? CallGraph.documentKey es with
  | none => exact h
  | some v => exact h.of_field? hv

section Files

variable {levels : ℕ} {t : FileTree} {s : String} {es : List (Value Float × Value Float)}

/-- A text that is read as a document is not empty. -/
theorem Json.isEmpty_eq_false_of_readChars {cs : List Char} {v : Value Float}
    (h : Json.readChars levels cs = .ok v) : cs.isEmpty = false := by
  cases cs with
  | nil => cases h
  | cons => rfl

/-- The call graph in a file of documents is that in its text. -/
theorem CallGraph.load_eq_ofDocumentText {p : FilePath}
    (hsuffix : Text.lowercase p.suffix = ".json") (hread : t.readText p = .ok s) :
    CallGraph.load levels t p = CallGraph.ofDocumentText levels p.text s := by
  have hform : CallGraph.formOf? p.suffix = some .document := by
    simp [CallGraph.formOf?, hsuffix]
  simp only [CallGraph.load, hform, hread]
  rfl

/-- The call graph in a file with an object is that of what the object holds as its
call graph. -/
theorem CallGraph.load_of_object {p : FilePath} (hsuffix : Text.lowercase p.suffix = ".json")
    (hread : t.readText p = .ok s)
    (hobject : Json.readChars levels (Text.trimBlanks s.toList) = .ok (.map es)) :
    CallGraph.load levels t p =
      CallGraph.named .document (CallGraph.ofValue (CallGraph.unwrapped es)) := by
  have hnonempty : (Text.trimBlanks s.toList).isEmpty = false :=
    Json.isEmpty_eq_false_of_readChars hobject
  rw [CallGraph.load_eq_ofDocumentText hsuffix hread]
  simp [CallGraph.ofDocumentText, hnonempty, hobject, CallGraph.ofDocument]

namespace CommandLine

variable {location : String}

/-- A file with an object passes the check when what the object holds as its call graph follows
the schema. -/
theorem checkCallGraph_eq_ok_iff
    (hsuffix : Text.lowercase (FilePath.read location).suffix = ".json")
    (hread : t.readText (FilePath.read location) = .ok s)
    (hobject : Json.readChars levels (Text.trimBlanks s.toList) = .ok (.map es)) :
    checkCallGraph levels t location = .ok () ↔
      Schema.callGraph.violations (CallGraph.unwrapped es) = [] := by
  have hnonempty : (Text.trimBlanks s.toList).isEmpty = false :=
    Json.isEmpty_eq_false_of_readChars hobject
  have hchecked : checkedDocument levels s = .ok (some (CallGraph.unwrapped es)) := by
    simp [checkedDocument, hnonempty, hobject]
  have hviolation : Schema.firstViolation Schema.callGraph [CallGraph.unwrapped es] = none ↔
      Schema.callGraph.violations (CallGraph.unwrapped es) = [] := by
    simp [Schema.firstViolation_eq_none_iff]
  rw [← hviolation]
  simp only [checkCallGraph, hsuffix, hread, hchecked, Schema.breach?, Schema.breachWith?]
  cases Schema.firstViolation Schema.callGraph [CallGraph.unwrapped es] with
  | none => exact iff_of_true rfl rfl
  | some r => exact iff_of_false (fun h => by cases h) (fun h => by cases h)

/-- **A file that passes the check is read as it stands**: its callers, each with the callees
listed for it, and with none where there is null. -/
theorem load_of_checkCallGraph
    (hsuffix : Text.lowercase (FilePath.read location).suffix = ".json")
    (hread : t.readText (FilePath.read location) = .ok s)
    (hobject : Json.readChars levels (Text.trimBlanks s.toList) = .ok (.map es))
    (hcheck : checkCallGraph levels t location = .ok ()) :
    ∃ m, CallGraph.unwrapped es = callGraphDocument m ∧
      CallGraph.load levels t (FilePath.read location) =
        .ok (m.mapValues fun callees => callees.getD []) := by
  have hfollows : Schema.callGraph.violations (CallGraph.unwrapped es) = [] :=
    (checkCallGraph_eq_ok_iff hsuffix hread hobject).mp hcheck
  have hdocument : Json.IsDocument (CallGraph.unwrapped es) :=
    (Json.isDocument_of_readChars hobject).unwrapped
  obtain ⟨m, hm, -⟩ := (Schema.violations_callGraph_eq_nil_iff hdocument).mp hfollows
  refine ⟨m, hm, ?_⟩
  rw [CallGraph.load_of_object hsuffix hread hobject, hm, CallGraph.ofValue_callGraphDocument]
  rfl

/-- A file with a call graph under its name, in which a callee is listed twice and a caller has
null. -/
theorem load_of_checkCallGraph_of_wrapped :
    let s := "\x7b\"call_graph\": \x7b\"p.A.f\": [\"p.B.g\", \"p.B.g\"], \"p.C.h\": null\x7d\x7d\n"
    let t : FileTree := ⟨[], [], .insert .empty ["c.json"] (.text s)⟩
    let callers : Value Float := .record [("p.A.f", .texts ["p.B.g", "p.B.g"]), ("p.C.h", .null)]
    (Json.readChars 950 (Text.trimBlanks s.toList) = .ok (.record [("call_graph", callers)]) ∧
      checkCallGraph 950 t "/c.json" = .ok ()) ∧
    ∃ m, callers = callGraphDocument m ∧
      CallGraph.load 950 t (FilePath.read "/c.json") =
        .ok (m.mapValues fun callees => callees.getD []) := by
  intro s t callers
  have hsuffix : Text.lowercase (FilePath.read "/c.json").suffix = ".json" := by decide
  have hread : t.readText (FilePath.read "/c.json") = .ok s := by decide
  have hblanks : Text.trimBlanks s.toList =
      ("\x7b\"call_graph\": \x7b\"p.A.f\": [\"p.B.g\", \"p.B.g\"], " ++
        "\"p.C.h\": null\x7d\x7d").toList := by
    cbv
  have hnull : ∀ rest, Json.plainValue ('n' :: 'u' :: 'l' :: 'l' :: rest) = .ok (.null, rest) := by
    intro rest
    simp [Json.plainValue, Json.words, Json.afterWord?]
    rfl
  have hobject : Json.readChars 950 (Text.trimBlanks s.toList) =
      .ok (.record [("call_graph", callers)]) := by
    rw [hblanks]
    simp [Json.readChars, Json.readValue, Json.readItems, Json.readFields, Json.textBody,
      Json.textUnits, Json.skipSpace, Json.isSpace, hnull, Except.map, bind, Except.bind]
    cbv
  have hcheck : checkCallGraph 950 t "/c.json" = .ok () := by
    refine (checkCallGraph_eq_ok_iff hsuffix hread hobject).mpr ?_
    cbv
  exact ⟨⟨hobject, hcheck⟩, load_of_checkCallGraph hsuffix hread hobject hcheck⟩

end CommandLine

end Files

end Linkage
