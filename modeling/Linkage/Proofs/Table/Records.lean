import Mathlib
import Linkage.Proofs.Outcome
import Linkage.Proofs.Table.Column
import Linkage.Table.Records

/-!
# Lists of records

What the first item of a list is decides how all items are read. After an object an item has to
be an object or a list of pairs, and the first part of a pair has to be able to be a name;
after anything else an item has to be a sequence. The items are looked at one by one, and so
are the parts of an item, so that it depends on the first one that does not fit how a list is
refused. A list of records is refused as well when a column holds a number that no floating
point number is near to.

A table of records has no two columns of the same name, and no row of bytes in any cell,
because documents hold none.

## Main results

* `Records.exists_row_eq_ok_iff`, `Records.row_eq_noParts_iff`: the items that are records, and
  those that are refused without a word.
* `Records.ofItems_failsSilently_iff`: the lists that are refused without a word.
* `Records.regular_of_ofItems`: the columns and the cells of a table of records.
-/

namespace Linkage.Records

open Json

/-! ### Records -/

/-- A part of an item that is **a field**: a pair whose first part may be a name. -/
def IsField (v : Value Float) : Prop := ∃ key x, parts? v = some [key, x] ∧ isName key = true

/-- A part of an item that is refused without a word: it is no sequence, or a pair with a name
that is a list or an object. -/
def IsNoField (v : Value Float) : Prop :=
  parts? v = none ∨ ∃ key x, parts? v = some [key, x] ∧ isName key = false

/-- An item that **is a record**: an object, a list of fields, or the empty text. -/
inductive IsRecord : Value Float → Prop where
  | object (es : List (Value Float × Value Float)) : IsRecord (.map es)
  | pairs {xs : List (Value Float)} (h : ∀ v ∈ xs, IsField v) : IsRecord (.list xs)
  | nothing : IsRecord (.text "")

/-- An item that is refused without a word: it is no sequence, or so is the first part of a
list that is no field. -/
inductive LacksParts : Value Float → Prop where
  | plain {v : Value Float} (h : parts? v = none) : LacksParts v
  | pairs {xs : List (Value Float)} (h : Until IsField IsNoField xs) : LacksParts (.list xs)

/-- A field is not what fields are refused for. -/
theorem IsField.not_isNoField {v : Value Float} (h : IsField v) : ¬IsNoField v := by
  obtain ⟨key, x, hparts, hname⟩ := h
  rintro (hnone | ⟨key', x', hparts', hname'⟩)
  · rw [hparts] at hnone
    cases hnone
  · obtain ⟨rfl, rfl⟩ : key = key' ∧ x = x' := by simpa [hparts] using hparts'
    rw [hname] at hname'
    cases hname'

variable {position : ℕ} {held : Row} {xs : List (Value Float)}

/-- What is made of the parts of a list. -/
theorem fields_cons (v : Value Float) (rest : List (Value Float)) :
    (∃ key x, parts? v = some [key, x] ∧ IsField v ∧
      fields position held (v :: rest) = fields (position + 1) (Value.store key x held) rest) ∨
    (IsNoField v ∧ fields position held (v :: rest) = .error .noParts) ∨
    (¬IsField v ∧ ¬IsNoField v ∧
      ∃ length, fields position held (v :: rest) = .error (.badPair position length)) := by
  rw [fields]
  split
  · next hparts => exact .inr (.inl ⟨.inl hparts, rfl⟩)
  · next key x hparts =>
    split
    · next hname => exact .inl ⟨key, x, hparts, ⟨key, x, hparts, hname⟩, rfl⟩
    · next hname => exact .inr (.inl ⟨.inr ⟨key, x, hparts, by simpa using hname⟩, rfl⟩)
  · next ys hne hparts =>
    have hpair : ∀ key x, parts? v ≠ some [key, x] := fun key x h =>
      hne key x (Option.some.inj (hparts.symm.trans h))
    refine .inr (.inr ⟨?_, ?_, ys.length, rfl⟩)
    · rintro ⟨key, x, h, -⟩
      exact hpair key x h
    · rintro (h | ⟨key, x, h, -⟩)
      · rw [hparts] at h
        cases h
      · exact hpair key x h

/-- The parts of a list are fields until one is refused without a word. -/
theorem fields_eq_noParts_iff :
    fields position held xs = .error .noParts ↔ Until IsField IsNoField xs := by
  induction xs generalizing position held with
  | nil => exact iff_of_false (fun h => by cases h) (fun h => by cases h)
  | cons v rest ih =>
      rw [until_cons_iff]
      rcases @fields_cons position held v rest with
        ⟨key, x, -, hfield, heq⟩ | ⟨hno, heq⟩ | ⟨hfield, hno, length, heq⟩
      · rw [heq, ih, or_iff_right hfield.not_isNoField, and_iff_right hfield]
      · exact iff_of_true heq (.inl hno)
      · rw [heq]
        exact iff_of_false (fun h => by cases h) fun h => h.elim hno fun h => hfield h.1

/-- A list gives fields when each of its elements is one. -/
theorem exists_fields_eq_ok_iff : (∃ r, fields position held xs = .ok r) ↔ ∀ v ∈ xs, IsField v := by
  induction xs generalizing position held with
  | nil => exact iff_of_true ⟨held, rfl⟩ fun _ h => absurd h List.not_mem_nil
  | cons v rest ih =>
      rw [List.forall_mem_cons]
      rcases @fields_cons position held v rest with
        ⟨key, x, -, hfield, heq⟩ | ⟨hno, heq⟩ | ⟨hfield, -, length, heq⟩
      · rw [heq, ih, and_iff_right hfield]
      · rw [heq]
        exact iff_of_false (fun h => by cases h.choose_spec) fun h => h.1.not_isNoField hno
      · rw [heq]
        exact iff_of_false (fun h => by cases h.choose_spec) fun h => hfield h.1

/-- No number is out of range where fields are read. -/
theorem fields_ne_outOfRange : fields position held xs ≠ .error .outOfRange := by
  induction xs generalizing position held with
  | nil => exact fun h => by cases h
  | cons v rest ih =>
      rcases @fields_cons position held v rest with
        ⟨key, x, -, -, heq⟩ | ⟨-, heq⟩ | ⟨-, -, length, heq⟩
      · rw [heq]
        exact ih
      · rw [heq]
        exact fun h => by cases h
      · rw [heq]
        exact fun h => by cases h

/-- A character of a text is no field, and is counted. -/
theorem character_fits_nothing (c : Char) :
    ¬IsField (.text (String.singleton c)) ∧ ¬IsNoField (.text (String.singleton c)) := by
  have hparts : parts? (.text (String.singleton c)) = some [.text (String.singleton c)] := by
    simp [parts?]
  constructor
  · rintro ⟨key, x, h, -⟩
    simp [hparts] at h
  · rintro (h | ⟨key, x, h, -⟩) <;> simp [hparts] at h

/-- The parts of an item decide whether it is a record. -/
theorem row_eq_fields {item : Value Float} (hitem : ∀ es, item ≠ .map es) {xs : List (Value Float)}
    (hparts : parts? item = some xs) : row item = fields 0 [] xs := by
  cases item with
  | map es => exact absurd rfl (hitem es)
  | list ys =>
      obtain rfl := Option.some.inj hparts
      rfl
  | text s =>
      obtain rfl := Option.some.inj hparts
      rfl
  | _ => cases hparts

/-- **An item is read as a record** exactly when it is one. -/
theorem exists_row_eq_ok_iff {item : Value Float} : (∃ r, row item = .ok r) ↔ IsRecord item := by
  cases item with
  | map es => exact iff_of_true ⟨es, rfl⟩ (.object es)
  | list xs =>
      rw [row_eq_fields (fun es h => by cases h) rfl, exists_fields_eq_ok_iff]
      exact ⟨.pairs, fun h => by cases h with | pairs h => exact h⟩
  | text s =>
      rw [row_eq_fields (fun es h => by cases h) rfl, exists_fields_eq_ok_iff]
      constructor
      · intro h
        have hempty : s = "" := by
          rw [← String.toList_eq_nil_iff, List.eq_nil_iff_forall_not_mem]
          exact fun c hc => (character_fits_nothing c).1 (h _ (List.mem_map_of_mem hc))
        rw [hempty]
        exact .nothing
      · rintro ⟨⟩
        simp
  | _ => exact iff_of_false (fun h => by cases h.choose_spec) (fun h => by cases h)

/-- **An item is refused without a word** exactly when it lacks parts. -/
theorem row_eq_noParts_iff {item : Value Float} : row item = .error .noParts ↔ LacksParts item := by
  cases item with
  | map es =>
      exact iff_of_false (fun h => by cases h) (fun h => by cases h with | plain h => cases h)
  | list xs =>
      rw [row_eq_fields (fun es h => by cases h) rfl, fields_eq_noParts_iff]
      exact ⟨.pairs, fun h => by cases h with | plain h => cases h | pairs h => exact h⟩
  | text s =>
      rw [row_eq_fields (fun es h => by cases h) rfl, fields_eq_noParts_iff]
      refine iff_of_false (fun h => ?_) (fun h => by cases h with | plain h => cases h)
      cases hcs : s.toList with
      | nil =>
          rw [hcs] at h
          cases h
      | cons c cs =>
          rw [hcs, List.map_cons, until_cons_iff] at h
          exact h.elim (character_fits_nothing c).2 fun h => (character_fits_nothing c).1 h.1
  | _ => exact iff_of_true rfl (.plain rfl)

/-- No number is out of range where rows are read. -/
theorem row_ne_outOfRange (item : Value Float) : row item ≠ .error .outOfRange := by
  cases item with
  | map es => exact fun h => by cases h
  | list xs => exact fields_ne_outOfRange
  | text s => exact fields_ne_outOfRange
  | _ => exact fun h => by cases h

/-! ### Columns -/

/-- **The columns** under some names are made unless a number in one of them is out
of range. -/
theorem tabulate_eq_error_iff {keys : List (Value Float)} {rows : List Row} {e : RecordFault} :
    tabulate keys rows = .error e ↔
      e = .outOfRange ∧ ∃ key ∈ keys, Column.IsOutOfRange (rows.map (cell key)) := by
  simp only [← Column.unified?_eq_none_iff]
  have hstep : ∀ key : Value Float,
      (∃ cells, Column.unified? (rows.map (cell key)) = some cells) ∨
        Column.unified? (rows.map (cell key)) = none := fun key => by
    cases Column.unified? (rows.map (cell key)) with
    | none => exact .inr rfl
    | some cells => exact .inl ⟨cells, rfl⟩
  rw [tabulate, mapM_eq_error_iff]
  constructor
  · intro h
    obtain ⟨key, hkey, hfault⟩ := h.exists_mem
    split at hfault
    · cases hfault
    · next hnone =>
      cases hfault
      exact ⟨rfl, key, hkey, hnone⟩
  · rintro ⟨rfl, key, hkey, hnone⟩
    refine (until_iff_exists_mem fun key _ => ?_).mpr ⟨key, hkey, by rw [hnone]⟩
    rcases hstep key with ⟨cells, hcells⟩ | hnone
    · exact .inl ⟨(key, cells), by rw [hcells]⟩
    · exact .inr (by rw [hnone])

/-- The columns of a table are the unified cells of the rows, one column for each key. -/
theorem forall₂_of_tabulate {keys : List (Value Float)} {rows : List Row}
    {columns : List (Value Float × List (Value Float))} (h : tabulate keys rows = .ok columns) :
    List.Forall₂ (fun key c => key = c.1 ∧ Column.unified? (rows.map (cell key)) = some c.2) keys
      columns := by
  rw [tabulate, mapM_eq_ok_iff] at h
  refine h.imp fun key c hc => ?_
  split at hc
  · next cells hcells =>
    obtain rfl := Except.ok.inj hc
    exact ⟨rfl, hcells⟩
  · cases hc

/-! ### Lists -/

variable {items : List (Value Float)}

/-- The rows of a list of which all items are records. -/
def AreRows (items : List (Value Float)) (rows : List Row) : Prop :=
  List.Forall₂ (fun item r => row item = .ok r) items rows

/-- A list lacks parts when an element does, and all before it are records. -/
theorem ofObjects_eq_noParts_iff :
    ofObjects items = .error .noParts ↔ Until IsRecord LacksParts items := by
  have hcolumns : ∀ rows : List Row, (tabulate (names rows) rows >>= fun columns =>
      pure (Columns.mk ((named columns).map Prod.fst) items.length
        ((named columns).map Prod.snd))) ≠
        .error .noParts := by
    intro rows h
    rcases bind_eq_error_iff.mp h with h | ⟨columns, -, h⟩
    · cases (tabulate_eq_error_iff.mp h).1
    · cases h
  have hfits : IsRecord = fun item => ∃ r, row item = .ok r :=
    funext fun _ => propext exists_row_eq_ok_iff.symm
  have hstops : LacksParts = fun item => row item = .error .noParts :=
    funext fun _ => propext row_eq_noParts_iff.symm
  rw [hfits, hstops, ofObjects, bind_eq_error_iff, ← mapM_eq_error_iff]
  exact or_iff_left fun ⟨rows, _, h⟩ => hcolumns rows h

/-- A list is out of range when its elements are rows of which a column is. -/
theorem ofObjects_eq_outOfRange_iff :
    ofObjects items = .error .outOfRange ↔
      ∃ rows, AreRows items rows ∧
        ∃ key ∈ names rows, Column.IsOutOfRange (rows.map (cell key)) := by
  have hrows : items.mapM row ≠ .error .outOfRange := fun h => by
    obtain ⟨item, -, hitem⟩ := (mapM_eq_error_iff.mp h).exists_mem
    exact row_ne_outOfRange item hitem
  rw [ofObjects, bind_eq_error_iff, or_iff_right hrows]
  simp only [mapM_eq_ok_iff]
  refine exists_congr fun rows => and_congr_right fun _ => ?_
  rw [bind_eq_error_iff, tabulate_eq_error_iff, and_iff_right rfl]
  exact or_iff_left fun ⟨columns, _, h⟩ => by cases h

/-- The numbers in rows without names are in range unless those at one of the places
are not. -/
theorem isInRange_eq_false_iff {rows : List (List (Value Float))} :
    isInRange rows = false ↔ ∃ i, Column.IsOutOfRange (partsAt rows i) := by
  have hwidth : ∀ (rows : List (List (Value Float))) (n : ℕ),
      n ≤ rows.foldl (fun n r => max n r.length) n ∧
        ∀ r ∈ rows, r.length ≤ rows.foldl (fun n r => max n r.length) n := by
    intro rows
    induction rows with
    | nil => exact fun n => ⟨le_rfl, fun _ h => absurd h List.not_mem_nil⟩
    | cons r rows ih =>
        intro n
        obtain ⟨hn, hrows⟩ := ih (max n r.length)
        rw [List.foldl_cons]
        exact ⟨by omega, List.forall_mem_cons.mpr ⟨by omega, hrows⟩⟩
  simp only [isInRange, List.all_eq_false, List.mem_range, Option.not_isSome_iff_eq_none,
    Column.unified?_eq_none_iff]
  refine ⟨fun ⟨i, _, h⟩ => ⟨i, h⟩, fun ⟨i, h⟩ => ⟨i, ?_, h⟩⟩
  obtain ⟨before, n, hprefix, -⟩ := h
  have hmem : Value.int n ∈ partsAt rows i := hprefix.subset (by simp)
  obtain ⟨r, hr, hcell⟩ := List.mem_map.mp hmem
  by_contra hge
  have hlength := (hwidth rows 0).2 r hr
  rw [List.getD_eq_default _ _ (by omega)] at hcell
  cases hcell

/-- A list that is **refused without a word**. -/
inductive Unrecorded : List (Value Float) → Prop where
  /-- After an object, the first item that is no record lacks parts. -/
  | records {es : List (Value Float × Value Float)} {items : List (Value Float)}
      (h : Until IsRecord LacksParts (.map es :: items)) : Unrecorded (.map es :: items)
  /-- After an object all items are records, but a number under one of their names is out of
  range. -/
  | fields {es : List (Value Float × Value Float)} {items : List (Value Float)} {rows : List Row}
      (hrows : AreRows (.map es :: items) rows) {key : Value Float} (hkey : key ∈ names rows)
      (h : Column.IsOutOfRange (rows.map (cell key))) : Unrecorded (.map es :: items)
  /-- After anything else, an item is no sequence. -/
  | parts {first : Value Float} {items : List (Value Float)} (hfirst : ∀ es, first ≠ .map es)
      {item : Value Float} (hitem : item ∈ first :: items) (h : parts? item = none) :
      Unrecorded (first :: items)
  /-- After anything else all items are sequences, but a number at one of their places is out
  of range. -/
  | places {first : Value Float} {items : List (Value Float)} (hfirst : ∀ es, first ≠ .map es)
      {rows : List (List (Value Float))}
      (hrows : List.Forall₂ (fun item r => parts? item = some r) (first :: items) rows)
      {i : ℕ} (h : Column.IsOutOfRange (partsAt rows i)) : Unrecorded (first :: items)

/-- The faults that have no wording. -/
theorem failsSilently_iff {β : Type} {r : Except RecordFault β} :
    FailsSilently RecordFault.message? r ↔ r = .error .noParts ∨ r = .error .outOfRange := by
  cases r with
  | ok x => simp
  | error e => cases e <;> simp [RecordFault.message?]

/-- After an object. -/
theorem ofObjects_failsSilently_iff {es : List (Value Float × Value Float)} :
    FailsSilently RecordFault.message? (ofObjects (.map es :: items)) ↔
      Unrecorded (.map es :: items) := by
  rw [failsSilently_iff, ofObjects_eq_noParts_iff, ofObjects_eq_outOfRange_iff]
  constructor
  · rintro (h | ⟨rows, hrows, key, hkey, h⟩)
    · exact .records h
    · exact .fields hrows hkey h
  · intro h
    cases h with
    | records h => exact .inl h
    | fields hrows hkey h => exact .inr ⟨_, hrows, _, hkey, h⟩
    | parts hfirst => exact absurd rfl (hfirst es)
    | places hfirst => exact absurd rfl (hfirst es)

/-- What is made of a list after anything else. -/
theorem ofItems_of_ne {first : Value Float} (hfirst : ∀ es, first ≠ .map es) :
    ofItems (first :: items) = ((first :: items).mapM parts?).elim (.error .noParts) fun rows =>
      if isInRange rows then .ok ⟨[], (first :: items).length, []⟩ else .error .outOfRange := by
  cases first with
  | map es => exact absurd rfl (hfirst es)
  | _ =>
      rw [ofItems]
      · cases List.mapM parts? _ <;> rfl
      all_goals simp

/-- After anything else. -/
theorem ofItems_failsSilently_iff_of_ne {first : Value Float} (hfirst : ∀ es, first ≠ .map es) :
    FailsSilently RecordFault.message? (ofItems (first :: items)) ↔
      Unrecorded (first :: items) := by
  rw [ofItems_of_ne hfirst]
  cases hrows : (first :: items).mapM parts? with
  | none =>
      obtain ⟨item, hitem, hparts⟩ := mapM_eq_none_iff.mp hrows
      exact iff_of_true (failsSilently_error_iff.mpr rfl) (.parts hfirst hitem hparts)
  | some rows =>
      rw [Option.elim_some]
      cases hrange : isInRange rows with
      | false =>
          obtain ⟨i, hi⟩ := isInRange_eq_false_iff.mp hrange
          exact iff_of_true (failsSilently_error_iff.mpr rfl)
            (.places hfirst (mapM_eq_some_iff.mp hrows) hi)
      | true =>
          refine iff_of_false (by simp) fun h => ?_
          cases h with
          | records => exact hfirst _ rfl
          | fields => exact hfirst _ rfl
          | parts _ hitem hparts =>
              rw [mapM_eq_none_iff.mpr ⟨_, hitem, hparts⟩] at hrows
              cases hrows
          | places _ hrows' hout =>
              rw [mapM_eq_some_iff.mpr hrows', Option.some.injEq] at hrows
              rw [hrows] at hout
              rw [isInRange_eq_false_iff.mpr ⟨_, hout⟩] at hrange
              cases hrange

/-- **The lists that are refused without a word.** -/
theorem ofItems_failsSilently_iff :
    FailsSilently RecordFault.message? (ofItems items) ↔ Unrecorded items := by
  cases items with
  | nil => exact iff_of_false (by simp [ofItems]) (fun h => by cases h)
  | cons first items =>
      by_cases hfirst : ∃ es, first = .map es
      · obtain ⟨es, rfl⟩ := hfirst
        exact ofObjects_failsSilently_iff
      · exact ofItems_failsSilently_iff_of_ne fun es h => hfirst ⟨es, h⟩

/-- A list of documents on lines is refused without a word when a list of records would be,
unless it begins with a plain value. -/
theorem ofDocuments_failsSilently_iff : FailsSilently RecordFault.message? (ofDocuments items) ↔
    Unrecorded items ∧ ∃ first ∈ items.head?, isName first = false := by
  cases items with
  | nil => exact iff_of_false (by simp [ofDocuments]) (by simp)
  | cons first items =>
      rw [← ofItems_failsSilently_iff]
      cases first with
      | map es => exact (and_iff_left ⟨_, rfl, rfl⟩).symm
      | list xs => exact (and_iff_left ⟨_, rfl, rfl⟩).symm
      | _ => exact iff_of_false (by simp [ofDocuments]) (by simp [isName])

/-! ### Names and cells -/

/-- The text that is a name. -/
def nameOf? : Value Float → Option String
  | .text name => some name
  | _ => none

/-- Storing a value keeps the names, or adds one that is equal to none of them. -/
theorem keys_store (k v : Value Float) (held : Row) :
    (Value.store k v held).map Prod.fst = held.map Prod.fst ∨
      (∀ e ∈ held, Value.same e.1 k = false) ∧
        (Value.store k v held).map Prod.fst = held.map Prod.fst ++ [k] := by
  induction held with
  | nil => exact .inr ⟨fun _ he => absurd he List.not_mem_nil, rfl⟩
  | cons e rest ih =>
      rw [Value.store]
      cases hsame : Value.same e.1 k with
      | true => exact .inl rfl
      | false =>
          rcases ih with ih | ⟨hne, ih⟩
          · exact .inl (congrArg (e.1 :: ·) ih)
          · exact .inr ⟨List.forall_mem_cons.mpr ⟨hsame, hne⟩, congrArg (e.1 :: ·) ih⟩

/-- Storing a value leaves the values that are there and adds the one that is stored. -/
theorem mem_store {k v : Value Float} {held : Row} {e : Value Float × Value Float}
    (h : e ∈ Value.store k v held) : e ∈ held ∨ e.2 = v := by
  induction held with
  | nil => exact .inr (by rw [List.mem_singleton.mp h])
  | cons e' rest ih =>
      rw [Value.store] at h
      split at h
      · rcases List.mem_cons.mp h with rfl | h
        · exact .inr rfl
        · exact .inl (List.mem_cons_of_mem _ h)
      · rcases List.mem_cons.mp h with rfl | h
        · exact .inl List.mem_cons_self
        · exact (ih h).imp_left (List.mem_cons_of_mem _)

/-- A column has a name when its key is a text. -/
theorem nameOf?_eq_some_iff {v : Value Float} {name : String} :
    nameOf? v = some name ↔ v = .text name := by
  cases v <;> simp [nameOf?]

/-- Names that are texts stay different when a value is stored. -/
theorem nodup_store {k v : Value Float} {held : Row}
    (h : ((held.map Prod.fst).filterMap nameOf?).Nodup) :
    (((Value.store k v held).map Prod.fst).filterMap nameOf?).Nodup := by
  rcases keys_store k v held with hkeys | ⟨hne, hkeys⟩ <;> rw [hkeys]
  · exact h
  rw [List.filterMap_append]
  cases hname : nameOf? k with
  | none =>
      rw [List.filterMap_cons_none hname, List.filterMap_nil, List.append_nil]
      exact h
  | some name =>
      rw [List.filterMap_cons_some hname, List.filterMap_nil]
      refine h.append (List.nodup_singleton name) (List.disjoint_singleton.mpr fun hmem => ?_)
      obtain ⟨key, hkey, hkeyname⟩ := List.mem_filterMap.mp hmem
      obtain ⟨e, he, rfl⟩ := List.mem_map.mp hkey
      have hsame := hne e he
      rw [nameOf?_eq_some_iff.mp hkeyname, nameOf?_eq_some_iff.mp hname, Value.same] at hsame
      simp at hsame

/-- **The names of the columns** that are texts are different. -/
theorem nodup_names (rows : List Row) : ((names rows).filterMap nameOf?).Nodup := by
  have hrow : ∀ (r held : Row), ((held.map Prod.fst).filterMap nameOf?).Nodup →
      (((r.foldl (fun held e => Value.store e.1 .null held) held).map Prod.fst).filterMap
        nameOf?).Nodup := by
    intro r
    induction r with
    | nil => exact fun held h => h
    | cons e r ih => exact fun held h => ih _ (nodup_store h)
  have hrows : ∀ (rows : List Row) (held : Row), ((held.map Prod.fst).filterMap nameOf?).Nodup →
      (((rows.foldl (fun held r => r.foldl (fun held e => Value.store e.1 .null held) held)
        held).map
        Prod.fst).filterMap nameOf?).Nodup := by
    intro rows
    induction rows with
    | nil => exact fun held h => h
    | cons r rows ih => exact fun held h => ih _ (hrow r held h)
  exact hrows rows [] List.nodup_nil

/-- The parts of a document are documents. -/
theorem isDocument_of_parts? {v : Value Float} (hv : IsDocument v) (h : parts? v = some xs) :
    ∀ x ∈ xs, IsDocument x := by
  cases hv with
  | list hitems =>
      obtain rfl := Option.some.inj h
      exact hitems
  | text s =>
      obtain rfl := Option.some.inj h
      exact List.forall_mem_map.mpr fun c _ => .text _
  | object m hm =>
      obtain rfl := Option.some.inj h
      exact List.forall_mem_map.mpr (List.forall_mem_map.mpr fun e _ => .text _)
  | _ => cases h

/-- The fields of a row hold documents when the list does. -/
theorem isDocument_of_fields {r : Row} (hheld : ∀ e ∈ held, IsDocument e.2)
    (hxs : ∀ v ∈ xs, IsDocument v)
    (h : fields position held xs = .ok r) : ∀ e ∈ r, IsDocument e.2 := by
  induction xs generalizing position held with
  | nil =>
      obtain rfl := Except.ok.inj h
      exact hheld
  | cons v rest ih =>
      rw [List.forall_mem_cons] at hxs
      rcases @fields_cons position held v rest with
        ⟨key, x, hparts, -, heq⟩ | ⟨-, heq⟩ | ⟨-, -, length, heq⟩ <;> rw [heq] at h
      · refine ih (fun e he => ?_) hxs.2 h
        rcases mem_store he with he | hx
        · exact hheld e he
        · exact hx ▸ isDocument_of_parts? hxs.1 hparts x (by simp)
      · cases h
      · cases h

/-- The fields of a record in a document are documents. -/
theorem isDocument_of_row {item : Value Float} {r : Row} (hitem : IsDocument item)
    (h : row item = .ok r) : ∀ e ∈ r, IsDocument e.2 := by
  cases hitem with
  | object m hm =>
      obtain rfl := Except.ok.inj h
      exact List.forall_mem_map.mpr hm
  | list hitems =>
      rw [row_eq_fields (fun es h => by cases h) rfl] at h
      exact isDocument_of_fields (fun _ he => absurd he List.not_mem_nil) hitems h
  | text s =>
      rw [row_eq_fields (fun es h => by cases h) rfl] at h
      exact isDocument_of_fields (fun _ he => absurd he List.not_mem_nil)
        (isDocument_of_parts? (.text s) rfl) h
  | _ => cases h

/-- The columns with a name have the names that are texts, and cells that were there. -/
theorem named_eq (columns : List (Value Float × List (Value Float))) :
    (named columns).map Prod.fst = (columns.map Prod.fst).filterMap nameOf? ∧
      ∀ c ∈ named columns, ∃ c' ∈ columns, c.2 = c'.2 := by
  induction columns with
  | nil => exact ⟨rfl, fun _ h => absurd h List.not_mem_nil⟩
  | cons c columns ih =>
      obtain ⟨key, cells⟩ := c
      have hstep : named ((key, cells) :: columns) =
          ((nameOf? key).map fun name => (name, cells)).toList ++ named columns := by
        cases key <;> rfl
      rw [hstep, List.map_append, ih.1, List.map_cons]
      cases hname : nameOf? key with
      | none =>
          rw [List.filterMap_cons_none hname]
          exact ⟨rfl, fun c hc => (ih.2 c hc).imp fun c' h => ⟨List.mem_cons_of_mem _ h.1, h.2⟩⟩
      | some name =>
          rw [List.filterMap_cons_some hname]
          refine ⟨rfl, List.forall_mem_cons.mpr ⟨⟨_, List.mem_cons_self, rfl⟩, fun c hc => ?_⟩⟩
          exact (ih.2 c hc).imp fun c' h => ⟨List.mem_cons_of_mem _ h.1, h.2⟩

/-- A table whose columns have different names, and whose cells are documents. -/
structure Columns.Regular (c : Columns) : Prop where
  /-- The names are different. -/
  names : c.names.Nodup
  /-- The cells are documents. -/
  cells : ∀ column ∈ c.cells, ∀ v ∈ column, IsDocument v

/-- **Columns of objects** are regular when the objects are documents. -/
theorem regular_of_ofObjects {c : Columns} (hitems : ∀ v ∈ items, IsDocument v)
    (h : ofObjects items = .ok c) : c.Regular := by
  obtain ⟨rows, hrows, h⟩ := exists_of_bind_eq_ok h
  obtain ⟨columns, hcolumns, h⟩ := exists_of_bind_eq_ok h
  obtain rfl := Except.ok.inj h
  have hall := forall₂_of_tabulate hcolumns
  have hdocuments : ∀ r ∈ rows, ∀ e ∈ r, IsDocument e.2 := by
    intro r hr
    obtain ⟨item, hitem, hrow⟩ := exists_mem_of_forall₂ (mapM_eq_ok_iff.mp hrows) r hr
    exact isDocument_of_row (hitems item hitem) hrow
  have hcell : ∀ key, ∀ v ∈ rows.map (cell key), IsDocument v := by
    intro key
    refine List.forall_mem_map.mpr fun r hr => ?_
    unfold cell
    split
    · next e he => exact hdocuments r hr e (List.mem_of_find?_eq_some he)
    · exact .real _
  have hkeys : names rows = columns.map Prod.fst := by
    rw [← List.forall₂_eq_eq_eq, List.forall₂_map_right_iff]
    exact hall.imp fun _ _ h => h.1
  refine ⟨?_, fun column hmem => ?_⟩
  · rw [(named_eq columns).1, ← hkeys]
    exact nodup_names rows
  · obtain ⟨c, hc, rfl⟩ := List.mem_map.mp hmem
    obtain ⟨c', hc', heq⟩ := (named_eq columns).2 c hc
    obtain ⟨key, -, -, hcells⟩ := exists_mem_of_forall₂ hall c' hc'
    rw [heq]
    exact Column.isDocument_of_unified? (hcell key) hcells

/-- **The columns of a table of records** have different names, and hold documents. -/
theorem regular_of_ofItems {c : Columns} (hitems : ∀ v ∈ items, IsDocument v)
    (h : ofItems items = .ok c) : c.Regular := by
  have hnone : ∀ height : ℕ, (Columns.mk [] height []).Regular := fun height =>
    ⟨List.nodup_nil, fun _ h => absurd h List.not_mem_nil⟩
  unfold ofItems at h
  split at h
  · obtain rfl := Except.ok.inj h
    exact hnone 0
  · exact regular_of_ofObjects hitems h
  · split at h
    · cases h
    · split at h
      · obtain rfl := Except.ok.inj h
        exact hnone _
      · cases h

/-- **Columns of documents** are regular. -/
theorem regular_of_ofDocuments {c : Columns} (hitems : ∀ v ∈ items, IsDocument v)
    (h : ofDocuments items = .ok c) : c.Regular := by
  unfold ofDocuments at h
  split at h
  · exact regular_of_ofObjects hitems h
  · exact regular_of_ofItems hitems h
  · obtain rfl := Except.ok.inj h
    exact ⟨List.nodup_nil, fun _ h => absurd h List.not_mem_nil⟩

end Linkage.Records
