import Mathlib
import Linkage.Proofs.Fingerprint.Rearrangement
import Linkage.Proofs.Json.Delimited

/-!
# Fingerprints of modules

The document behind the fingerprint of a list of modules is a list of objects, each with the
average and the classes of a module. The text of an average has no comma, names of classes
stand between quotation marks, and brackets enclose the classes of a module and the modules. So
the modules can be told from the document one by one, whatever the names of their classes are.

## Main results

* `text_ofModulesValue`: lists of modules are never refused, and their documents.
* `modulesText_eq_iff`: documents are equal exactly for modules with the same classes and
  averages.
-/

namespace Linkage.Fingerprint

open Json

/-- The text of the average of a module, as a fingerprint sees it. -/
def averageText (m : Module Float) : String :=
  NumberSpelling.document.text (roundPlaces places m.averageCoupling)

/-- The text of the classes of a module. -/
def classesText (m : Module Float) : String :=
  Layout.fingerprint.enclose 2 "[" "]" (m.classes.map (escaped false))

/-- The text of a module. -/
def moduleText (m : Module Float) : String :=
  Layout.fingerprint.enclose 1 "\x7b" "\x7d"
    ["\"average_coupling\": " ++ averageText m, "\"classes\": " ++ classesText m]

/-- The value behind the text of a module: the average comes first. -/
def moduleRecord (m : Module Float) : Value Float :=
  .map [(.text "average_coupling", .real (roundPlaces places m.averageCoupling)),
    (.text "classes", .texts m.classes)]

/-! ### The document -/

/-- Texts that were all written are collected. -/
theorem collect_map_ok (items : List String) : collect (items.map .ok) = .ok items := by
  induction items with
  | nil => rfl
  | cons s items ih => rw [List.map_cons, collect, ih, Except.map]

/-- Texts are presented as they are. -/
theorem present_texts (xs : List String) : present (.texts xs) = .ok (.texts xs) := by
  have heach : presentEach (xs.map .text) = (xs.map .text).map .ok := by
    rw [presentEach_eq, List.map_map, List.map_map]
    refine List.map_congr_left fun s _ => ?_
    rw [Function.comp, Function.comp, present]
  rw [Value.texts, present, heach, presentedAll_map_ok, Except.map]

/-- A module is presented with the average first. -/
theorem present_module (m : Module Float) :
    present (.record [("classes", .texts m.classes),
      ("average_coupling", .real m.averageCoupling)]) =
      .ok (moduleRecord m) := by
  have hsorted : ∀ p q : Except WriteError (Value Float),
      keyed [("classes", p), ("average_coupling", q)] =
        [("average_coupling", q), ("classes", p)] := by
    intro p q
    have hmerge :
        ([("classes", p), ("average_coupling", q)].mergeSort fun a b => decide (a.1 ≤ b.1)) =
        [("average_coupling", q), ("classes", p)] := by
      simp [List.mergeSort]
    rw [keyed, hmerge]
    rfl
  have hentries : presentEntries [(.text "classes", .texts m.classes),
      (.text "average_coupling", .real m.averageCoupling)] =
      [("classes", .ok (.texts m.classes)),
        ("average_coupling", .ok (.real (roundPlaces places m.averageCoupling)))] := by
    rw [presentEntries_eq, List.map_cons, List.map_singleton, present_texts, present]
    rfl
  show present (.map [(.text "classes", .texts m.classes),
    (.text "average_coupling", .real m.averageCoupling)]) = _
  rw [present, hentries, hsorted]
  exact presentedMap_map_ok [("average_coupling", .real (roundPlaces places m.averageCoupling)),
    ("classes", .texts m.classes)]

/-- The classes of a module are written. -/
theorem write_classes (m : Module Float) :
    write .fingerprint 2 (.texts m.classes) = .ok (classesText m) := by
  have hitems : writeAll .fingerprint 3 (m.classes.map .text) =
      (m.classes.map (escaped false)).map .ok := by
    rw [writeAll_eq, List.map_map, List.map_map]
    refine List.map_congr_left fun s _ => ?_
    rw [Function.comp, Function.comp, write]
    rfl
  rw [Value.texts, write, hitems, collect_map_ok]
  rfl

/-- A module is written, as it was presented. -/
theorem write_module (m : Module Float) :
    write .fingerprint 1 (moduleRecord m) = .ok (moduleText m) := by
  have hless : Value.less? (.text "classes") (.text "average_coupling") = some false := by
    rw [Value.less?]
    rfl
  have harranged : ∀ r r' : Except WriteError String,
      arranged true [(.text "average_coupling", r), (.text "classes", r')] =
        .ok [(.text "average_coupling", r), (.text "classes", r')] := by
    intro r r'
    simp [arranged, Value.sortOn?, BisectionSort.sort?, BisectionSort.leadingRun?,
      BisectionSort.risingRun?, BisectionSort.insertAll?, hless]
  have hentries : writeEntries .fingerprint 2
      [(.text "average_coupling", .real (roundPlaces places m.averageCoupling)),
        (.text "classes", .texts m.classes)] =
      [(.text "average_coupling", .ok (averageText m)),
        (.text "classes", .ok (classesText m))] := by
    rw [writeEntries_eq, List.map_cons, List.map_singleton, write_classes, write]
    rfl
  have haverage : entryText .fingerprint (.text "average_coupling", .ok (averageText m)) =
      .ok ("\"average_coupling\": " ++ averageText m) := rfl
  have hclasses : entryText .fingerprint (.text "classes", .ok (classesText m)) =
      .ok ("\"classes\": " ++ classesText m) := rfl
  rw [moduleRecord, write, hentries]
  show Except.bind (arranged true _) _ = _
  rw [harranged, Except.bind, List.map_cons, List.map_singleton, haverage, hclasses]
  have hcollect := collect_map_ok
    ["\"average_coupling\": " ++ averageText m, "\"classes\": " ++ classesText m]
  rw [List.map_cons, List.map_singleton] at hcollect
  rw [hcollect]
  rfl

/-- **Lists of modules are never refused.** -/
theorem text_ofModulesValue (ms : List (Module Float)) :
    text (ofModulesValue ms) = .ok (Layout.fingerprint.enclose 0 "[" "]" (ms.map moduleText)) := by
  have hpresent : present (ofModulesValue ms) = .ok (.list (ms.map moduleRecord)) := by
    have heach : (ms.map fun m => .record [("classes", .texts m.classes),
        ("average_coupling", .real m.averageCoupling)]).map present =
          (ms.map moduleRecord).map .ok := by
      rw [List.map_map, List.map_map]
      exact List.map_congr_left fun m _ => present_module m
    rw [ofModulesValue, present, presentEach_eq, heach, presentedAll_map_ok]
    rfl
  have hitems : writeAll .fingerprint 1 (ms.map moduleRecord) = (ms.map moduleText).map .ok := by
    rw [writeAll_eq, List.map_map, List.map_map]
    exact List.map_congr_left fun m _ => write_module m
  rw [text, hpresent]
  show write .fingerprint 0 _ = _
  rw [write, hitems, collect_map_ok]
  rfl

/-- The text of some modules is the list of their texts. -/
theorem modulesText_eq (ms : List (Module Float)) :
    modulesText ms = Layout.fingerprint.enclose 0 "[" "]" (ms.map moduleText) := by
  rw [modulesText, text_ofModulesValue]

/-! ### Modules told from the document -/

/-- Modules that a fingerprint **does not tell apart** hold the same classes, and their
averages are written alike once they have been rounded. -/
def SeenAlike (m n : Module Float) : Prop := m.classes = n.classes ∧ averageText m = averageText n

/-- The text of the classes of a module tells its end, and the classes. -/
theorem tellsApart_classesText {m n : Module Float} {r s : List Char}
    (h : (classesText m).toList ++ r = (classesText n).toList ++ s) :
    m.classes = n.classes ∧ r = s := by
  have hfirst : ∀ x : String, ∃ c cs, (escaped false x).toList = c :: cs ∧ c ≠ ']' := fun x =>
    ⟨'"', _, by rw [escaped, String.toList_ofList], by decide⟩
  obtain ⟨hclasses, hrs⟩ := tellsApart_enclose tellsApart_escaped hfirst 2 h
  exact ⟨List.forall₂_eq_eq_eq ▸ hclasses, hrs⟩

/-- What stands before the first place of a character can be told from what follows it. -/
theorem eq_of_append_cons_eq {γ : Type} {c : γ} {xs ys r s : List γ} (hx : c ∉ xs) (hy : c ∉ ys)
    (h : xs ++ c :: r = ys ++ c :: s) : xs = ys ∧ r = s := by
  induction xs generalizing ys with
  | nil =>
      cases ys with
      | nil => exact ⟨rfl, (List.cons.inj h).2⟩
      | cons y ys => exact absurd (List.mem_cons.mpr (.inl (List.cons.inj h).1)) hy
  | cons x xs ih =>
      rw [List.mem_cons, not_or] at hx
      cases ys with
      | nil => exact absurd (List.cons.inj h).1.symm hx.1
      | cons y ys =>
          rw [List.mem_cons, not_or] at hy
          obtain ⟨hhead, htail⟩ := List.cons.inj h
          obtain ⟨hxs, hrs⟩ := ih hx.2 hy.2 htail
          exact ⟨by rw [hhead, hxs], hrs⟩

/-- The characters of the text of a module: its average, then its classes. -/
theorem toList_moduleText (m : Module Float) :
    (moduleText m).toList = '\x7b' :: ("\"average_coupling\": ".toList ++ ((averageText m).toList ++
      ',' :: ' ' :: ("\"classes\": ".toList ++ ((classesText m).toList ++ ['\x7d'])))) := by
  have hitems := toList_enclose_cons id 1 "\x7b" "\x7d" ("\"average_coupling\": " ++ averageText m)
    ["\"classes\": " ++ classesText m]
  rw [List.map_id] at hitems
  rw [moduleText, hitems, tailText, List.flatMap_singleton, id_eq, id_eq, String.toList_append,
    String.toList_append, List.append_assoc]
  rfl

/-- **Modules** tell their ends: the average has no comma, and one stands before
the classes. -/
theorem tellsApart_moduleText : TellsApart SeenAlike moduleText := by
  intro m n r s h
  simp only [toList_moduleText, List.append_assoc, List.cons_append, List.cons.injEq, true_and,
    List.append_cancel_left_eq] at h
  obtain ⟨haverage, hrest⟩ :=
    eq_of_append_cons_eq (comma_not_mem_floatText _) (comma_not_mem_floatText _) h
  obtain ⟨hclasses, hrs⟩ := tellsApart_classesText (List.append_cancel_left (List.cons.inj hrest).2)
  exact ⟨⟨hclasses, String.toList_inj.mp haverage⟩, (List.cons.inj hrs).2⟩

/-- **The document identifies the modules**: it is the same exactly for lists of the same
length which hold, place by place, modules with the same classes and with averages that are
written alike once they have been rounded. The names of the classes may hold any characters. -/
theorem modulesText_eq_iff (ms ns : List (Module Float)) :
    modulesText ms = modulesText ns ↔ List.Forall₂ SeenAlike ms ns := by
  have hfirst : ∀ m : Module Float, ∃ c cs, (moduleText m).toList = c :: cs ∧ c ≠ ']' := fun m =>
    ⟨'\x7b', _, toList_moduleText m, by decide⟩
  rw [modulesText_eq, modulesText_eq]
  constructor
  · intro h
    exact (tellsApart_enclose tellsApart_moduleText hfirst 0).related h
  · intro h
    have htexts : ms.map moduleText = ns.map moduleText := by
      induction h with
      | nil => rfl
      | cons hmn _ ih =>
          obtain ⟨hclasses, haverage⟩ := hmn
          rw [List.map_cons, List.map_cons, ih, moduleText, moduleText, classesText,
            classesText, hclasses, haverage]
    rw [htexts]

end Linkage.Fingerprint
