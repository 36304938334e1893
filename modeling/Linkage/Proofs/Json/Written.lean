import Mathlib
import Linkage.Json.Writer
import Linkage.Proofs.Json.Numerals
import Linkage.Proofs.Outcome

/-!
# What is written is a document

Whatever the layout, a value that is written is written as a value of the grammar, and its text
is strict exactly when all scalars in it are finite. Members of sets and entries of maps are
sorted first, which does not matter to that.

## Main results

* `isText_escaped`: texts between quotation marks.
* `derives_write`: a value that is written is derived from the grammar.
* `Writable.exists_write_eq_ok`: values of plain kinds, with keys that can be compared, are
  written.
* `isStrictJson_append_iff`: what is written is strict JSON exactly when its scalars are
  finite.
-/

namespace Linkage

namespace Value

mutual

/-- Whether all scalars of a value are **finite**. Keys do not count, which are written as
texts. -/
def finite : Value Float → Bool
  | real x => x.isFinite
  | list xs => finiteAll xs
  | tuple xs => finiteAll xs
  | set _ xs => finiteAll xs
  | map es => finiteEntries es
  | cell _ v => finite v
  | _ => true

/-- Whether all scalars of a list of values are finite. -/
def finiteAll : List (Value Float) → Bool
  | [] => true
  | v :: rest => finite v && finiteAll rest

/-- Whether all scalars of the values of some entries are finite. -/
def finiteEntries : List (Value Float × Value Float) → Bool
  | [] => true
  | (_, v) :: rest => finite v && finiteEntries rest

end

@[simp] theorem finite_null : finite null = true := rfl

@[simp] theorem finite_flag (b : Bool) : finite (flag b) = true := rfl

@[simp] theorem finite_int (n : ℤ) : finite (int n) = true := rfl

/-- A number is finite in a document when it is finite. -/
@[simp] theorem finite_real (x : Float) : finite (real x) = x.isFinite := rfl

@[simp] theorem finite_text (s : String) : finite (text s) = true := rfl

/-- A list is finite when its elements are. -/
theorem finiteAll_eq (xs : List (Value Float)) : finiteAll xs = (xs.map finite).all id := by
  induction xs with
  | nil => rfl
  | cons v rest ih => rw [finiteAll, ih, List.map_cons, List.all_cons, id_eq]

/-- A map is finite when its values are. -/
theorem finiteEntries_eq (es : List (Value Float × Value Float)) :
    finiteEntries es = (es.map fun e => e.2.finite).all id := by
  induction es with
  | nil => rfl
  | cons e rest ih => rw [finiteEntries, ih, List.map_cons, List.all_cons, id_eq]

/-- A list made from other elements is finite when what is made from each is. -/
@[simp] theorem finite_list_map {β : Type} (f : β → Value Float) (xs : List β) :
    finite (list (xs.map f)) = xs.all fun x => (f x).finite := by
  rw [finite, finiteAll_eq, List.map_map, List.all_map]
  rfl

/-- A map made from other elements is finite when the value made from each is. -/
@[simp] theorem finite_map_map {β : Type} (f : β → Value Float × Value Float) (xs : List β) :
    finite (map (xs.map f)) = xs.all fun x => (f x).2.finite := by
  rw [finite, finiteEntries_eq, List.map_map, List.all_map]
  rfl

/-- A list of texts is finite. -/
@[simp] theorem finite_texts (xs : List String) : finite (texts xs) = true := by simp [texts]

/-- A record is finite when its fields are. -/
@[simp] theorem finite_record (fields : List (String × Value Float)) :
    finite (record fields) = fields.all fun f => f.2.finite :=
  finite_map_map _ fields

end Value

namespace Json

/-! ### Texts -/

/-- A number below a power of sixteen has no more hexadecimal digits than the exponent. -/
theorem toDigits_sixteen (k : ℕ) : ∀ {n : ℕ}, n < 16 ^ (k + 1) →
    (Nat.toDigits 16 n).length ≤ k + 1 ∧ ∀ c ∈ Nat.toDigits 16 n, (hexDigit? c).isSome = true := by
  have hdigit : ∀ d < 16, (hexDigit? d.digitChar).isSome = true := by decide
  induction k with
  | zero =>
      intro n hn
      rw [Nat.toDigits_of_lt_base (by omega)]
      exact ⟨le_rfl, by simpa using hdigit n (by omega)⟩
  | succ k ih =>
      intro n hn
      rw [Nat.toDigits_eq_if (by decide)]
      split
      · next hlt => exact ⟨by simp, by simpa using hdigit n hlt⟩
      · obtain ⟨hlength, hdigits⟩ := ih (n := n / 16) (by rw [pow_succ] at hn; omega)
        refine ⟨by rw [List.length_append, List.length_singleton]; omega, fun c hc => ?_⟩
        rcases List.mem_append.mp hc with hc | hc
        · exact hdigits c hc
        · rw [List.mem_singleton.mp hc]
          exact hdigit _ (Nat.mod_lt _ (by decide))

/-- A unit of sixteen bits may stand between quotation marks as an escape. -/
theorem isTextBody_unitEscape {n : ℕ} (hn : n < 65536) : IsTextBody (unitEscape n) := by
  obtain ⟨hlength, hdigits⟩ := toDigits_sixteen 3 (n := n) (by omega)
  have hfour : (Text.hexadecimal 4 n).length = 4 := by
    simp only [Text.hexadecimal, List.length_append, List.length_replicate]
    omega
  have hall : ∀ c ∈ Text.hexadecimal 4 n, (hexDigit? c).isSome = true := by
    intro c hc
    rcases List.mem_append.mp hc with hc | hc
    · rw [List.eq_of_mem_replicate hc]
      decide
    · exact hdigits c hc
  rw [unitEscape]
  obtain ⟨p, q, r, s, hdigits⟩ := List.length_eq_four.mp hfour
  rw [hdigits] at hall ⊢
  exact .unit hall .nil

/-- A character may stand between quotation marks as one or two units. -/
theorem isTextBody_unitEscapes (c : Char) : IsTextBody (unitEscapes c) := by
  unfold unitEscapes
  split
  · next hshort => exact isTextBody_unitEscape hshort
  · have hvalid : c.toNat < 1114112 := by
      rcases c.valid with h | h
      · exact h.trans (by decide)
      · exact h.2
    exact (isTextBody_unitEscape (by omega)).append (isTextBody_unitEscape (by omega))

/-- A character may stand between quotation marks after it has been escaped. -/
theorem isTextBody_escapedChar (latin : Bool) (c : Char) : IsTextBody (escapedChar latin c) := by
  have hescape : ∀ d ∈ ['"', '\\', '/', 'b', 'f', 'n', 'r', 't'], IsTextBody ['\\', d] :=
    fun d hd => .escape hd .nil
  by_cases hshort : c ∈ ['"', '\\', '\n', '\r', '\t', '\x08', '\x0c']
  · simp only [List.mem_cons, List.not_mem_nil, or_false] at hshort
    rcases hshort with rfl | rfl | rfl | rfl | rfl | rfl | rfl <;> exact hescape _ (by decide)
  simp only [List.mem_cons, List.not_mem_nil, or_false, not_or] at hshort
  obtain ⟨hquote, hslash, hn, hr, ht, hb, hf⟩ := hshort
  simp only [escapedChar, if_neg hquote, if_neg hslash, if_neg hn, if_neg hr, if_neg ht, if_neg hb,
    if_neg hf]
  split
  · exact isTextBody_unitEscape (by omega)
  · next hcontrol =>
    split
    · exact isTextBody_unitEscapes c
    · exact .char hquote hslash (by omega) .nil

/-- **A text** is written between quotation marks. -/
theorem isText_escaped (latin : Bool) (s : String) : IsText (escaped latin s).toList := by
  have hbody : ∀ cs : List Char, IsTextBody (cs.flatMap (escapedChar latin)) := by
    intro cs
    induction cs with
    | nil => exact .nil
    | cons c cs ih => exact (isTextBody_escapedChar latin c).append ih
  rw [escaped, String.toList_ofList]
  exact .quoted (hbody _)

/-! ### Lists and objects -/

/-- The empty row of characters is blank. -/
theorem isBlank_nil : IsBlank [] := fun _ hc => absurd hc List.not_mem_nil

/-- A break between lines is blank. -/
theorem isBlank_lineBreak (l : Layout) (depth : ℕ) : IsBlank (l.lineBreak depth).toList := by
  unfold Layout.lineBreak
  split
  · exact isBlank_nil
  · intro c hc
    simp only [String.toList_append, String.toList_ofList] at hc
    rcases List.mem_append.mp hc with hc | hc
    · obtain rfl := List.mem_singleton.mp hc
      rfl
    · rw [List.eq_of_mem_replicate hc]
      rfl

/-- A separator is a comma before blanks. -/
theorem exists_separator_eq (l : Layout) (depth : ℕ) :
    ∃ gap, IsBlank gap ∧ (l.separator depth).toList = ',' :: gap := by
  unfold Layout.separator
  split
  · exact ⟨[' '], by simp [IsBlank, isSpace], rfl⟩
  · exact ⟨_, isBlank_lineBreak l depth, by rw [String.toList_append]; rfl⟩

/-- A part **inside brackets**: what may be padded with blanks to one of the parts between the
commas of a list or an object. -/
structure Inside (part : Bool → List Char → Prop) (one many : Symbol) : Prop where
  /-- A part with blanks around it. -/
  padded : ∀ {strict : Bool} {before cs after : List Char}, IsBlank before → part strict cs →
    IsBlank after → Derives one strict (before ++ (cs ++ after))
  /-- The last part. -/
  last : ∀ {strict : Bool} {cs : List Char}, Derives one strict cs → Derives many strict cs
  /-- A part before others. -/
  next : ∀ {strict rest : Bool} {cs ds : List Char}, Derives one strict cs → Derives many rest ds →
    Derives many (strict && rest) (cs ++ ',' :: ds)

/-- The text of an entry: a name, a colon and a value. -/
inductive IsEntry : Bool → List Char → Prop where
  | named {strict : Bool} {name gap cs : List Char} (hn : IsText name) (hg : IsBlank gap)
      (h : Derives .value strict cs) : IsEntry strict (name ++ ':' :: (gap ++ cs))

/-- The elements of a list stand inside brackets. -/
theorem inside_list : Inside (Derives .value) .element .elements :=
  ⟨.element, .lastElement, .nextElement⟩

/-- The entries of an object stand inside brackets. -/
theorem inside_object : Inside IsEntry .member .members := by
  refine ⟨fun {strict before cs after} hb hentry ha => ?_, .lastMember, .nextMember⟩
  cases hentry with
  | named hn hg h => simpa using Derives.member hb hn isBlank_nil (.element hg h ha)

/-- Parts with commas between them. Induction on the parts; the blanks of a separator go before
the part that follows. -/
theorem Inside.joined {part : Bool → List Char → Prop} {one many : Symbol}
    (h : Inside part one many)
    {gap after : List Char} (hg : IsBlank gap) (ha : IsBlank after) {bs : List Bool}
    {css : List (List Char)} (hparts : List.Forall₂ part bs css) (hne : css ≠ []) :
    ∀ {before : List Char}, IsBlank before →
      Derives many (bs.all id) (before ++ ((',' :: gap).intercalate css ++ after)) := by
  induction hparts with
  | nil => exact absurd rfl hne
  | @cons strict cs bs css hpart hrest ih =>
      intro before hb
      cases hrest with
      | nil => simpa [List.intercalate] using h.last (h.padded hb hpart ha)
      | @cons strict' ds bs css hpart' hrest =>
          have hfirst := h.padded hb hpart isBlank_nil
          simpa [List.intercalate] using h.next hfirst (ih (List.cons_ne_nil _ _) hg)

/-- **Items between brackets.** -/
theorem Inside.enclosed {part : Bool → List Char → Prop} {one many : Symbol}
    (h : Inside part one many)
    {opening closing : Char} (hnone : Derives .value true [opening, closing])
    (hsome : ∀ {strict : Bool} {cs : List Char}, Derives many strict cs →
      Derives .value strict (opening :: (cs ++ [closing])))
    (l : Layout) (depth : ℕ) {bs : List Bool} {items : List String}
    (hitems : List.Forall₂ (fun strict (s : String) => part strict s.toList) bs items) :
    Derives .value (bs.all id)
      (l.enclose depth (String.singleton opening) (String.singleton closing) items).toList := by
  unfold Layout.enclose
  cases hitems with
  | nil => simpa using hnone
  | @cons strict s bs items hs hrest =>
      obtain ⟨gap, hgap, hseparator⟩ := exists_separator_eq l (depth + 1)
      have hparts : List.Forall₂ part (strict :: bs) ((s :: items).map String.toList) := by
        rw [List.forall₂_map_right_iff]
        exact .cons hs hrest
      have hjoined := h.joined hgap (isBlank_lineBreak l depth) hparts (by simp)
        (isBlank_lineBreak l (depth + 1))
      rw [← hseparator] at hjoined
      simpa [Text.join, String.toList_intercalate] using hsome hjoined

/-! ### Values -/

/-- A result is a part of a document, if it is a text. -/
def Writes (part : Bool → List Char → Prop) (strict : Bool) (r : Except WriteError String) : Prop :=
  ∀ s, r = .ok s → part strict s.toList

/-- Written items that are collected are parts of a document. -/
theorem forall₂_collect {part : Bool → List Char → Prop} {bs : List Bool}
    {rs : List (Except WriteError String)} (h : List.Forall₂ (Writes part) bs rs) :
    ∀ {items : List String}, collect rs = .ok items →
      List.Forall₂ (fun strict (s : String) => part strict s.toList) bs items := by
  induction h with
  | nil =>
      intro items hitems
      obtain rfl := Except.ok.inj hitems
      exact .nil
  | @cons strict r bs rs hr _ ih =>
      intro items hitems
      cases r with
      | error e => cases hitems
      | ok s =>
          obtain ⟨rest, hrest, rfl⟩ := exists_of_map_eq_ok hitems
          exact .cons (hr s rfl) (ih hrest)

/-- The elements that are arranged are those that were given. -/
theorem perm_of_arranged {sort : Bool} {es es' : List WrittenEntry}
    (h : arranged sort es = .ok es') : es'.Perm es := by
  unfold arranged at h
  split at h
  · split at h
    · next sorted hsorted =>
      obtain rfl := Except.ok.inj h
      exact BisectionSort.perm_of_sort?_eq_some hsorted
    · cases h
  · obtain rfl := Except.ok.inj h
    exact .refl _

/-- What is known of the elements that were given is known of those that are arranged. -/
theorem exists_forall₂_of_arranged {R : Bool → WrittenEntry → Prop} {bs : List Bool} {sort : Bool}
    {es es' : List WrittenEntry} (h : List.Forall₂ R bs es)
    (harranged : arranged sort es = .ok es') :
    ∃ bs', List.Forall₂ R bs' es' ∧ bs'.all id = bs.all id := by
  have hcomp : Relation.Comp (List.Forall₂ R) List.Perm bs es' :=
    ⟨es, h, (perm_of_arranged harranged).symm⟩
  rw [List.forall₂_comp_perm_eq_perm_comp_forall₂] at hcomp
  obtain ⟨bs', hperm, h'⟩ := hcomp
  exact ⟨bs', h', hperm.all_eq.symm⟩

/-- Written members, each with its value. -/
theorem forall₂_zip {part : Bool → List Char → Prop} {xs : List (Value Float)}
    {rs : List (Except WriteError String)}
    (h : List.Forall₂ (Writes part) (xs.map Value.finite) rs) :
    List.Forall₂ (fun strict (e : WrittenEntry) => Writes part strict e.2) (xs.map Value.finite)
      (xs.zip rs) := by
  have hlength : rs.length ≤ xs.length := by rw [← h.length_eq, List.length_map]
  rw [← List.forall₂_map_right_iff, List.map_snd_zip hlength]
  exact h

/-- **A list** whose items have been written. -/
theorem derives_list {l : Layout} {depth : ℕ} {bs : List Bool}
    {rs : List (Except WriteError String)} (h : List.Forall₂ (Writes (Derives .value)) bs rs) :
    Writes (Derives .value) (bs.all id) ((collect rs).map (l.enclose depth "[" "]")) := by
  intro s hs
  obtain ⟨items, hitems, rfl⟩ := exists_of_map_eq_ok hs
  exact inside_list.enclosed (.emptyList isBlank_nil) .list l depth (forall₂_collect h hitems)

/-- The text of an entry whose value has been written. -/
theorem writes_entryText {l : Layout} {strict : Bool} {e : WrittenEntry}
    (h : Writes (Derives .value) strict e.2) : Writes IsEntry strict (entryText l e) := by
  intro s hs
  unfold entryText at hs
  split at hs
  · cases hs
  · next k hk =>
    obtain ⟨v, hv, rfl⟩ := exists_of_map_eq_ok hs
    have hgap : IsBlank [' '] := by simp [IsBlank, isSpace]
    simpa using IsEntry.named (isText_escaped l.latin k) hgap (h v hv)

/-- **An object** whose values have been written. -/
theorem derives_object {l : Layout} {depth : ℕ} {bs : List Bool} {es : List WrittenEntry}
    (h : List.Forall₂ (fun strict (e : WrittenEntry) => Writes (Derives .value) strict e.2) bs es) :
    Writes (Derives .value) (bs.all id)
      ((collect (es.map (entryText l))).map (l.enclose depth "\x7b" "\x7d")) := by
  intro s hs
  obtain ⟨items, hitems, rfl⟩ := exists_of_map_eq_ok hs
  have hentries : List.Forall₂ (Writes IsEntry) bs (es.map (entryText l)) := by
    rw [List.forall₂_map_right_iff]
    exact h.imp fun _ _ he => writes_entryText he
  exact inside_object.enclosed (.emptyObject isBlank_nil) .object l depth
    (forall₂_collect hentries hitems)

mutual

/-- **A value that is written is a value of the grammar**, and strict when all its scalars are
finite. -/
theorem derives_write (l : Layout) (depth : ℕ) :
    ∀ v : Value Float, Writes (Derives .value) v.finite (write l depth v)
  | .null => fun _ hs => Except.ok.inj hs ▸ .word (by decide)
  | .flag true => fun _ hs => Except.ok.inj hs ▸ .word (by decide)
  | .flag false => fun _ hs => Except.ok.inj hs ▸ .word (by decide)
  | .int n => fun _ hs => Except.ok.inj hs ▸ derives_intText n
  | .real x => fun _ hs => Except.ok.inj hs ▸ derives_floatText x
  | .text s => fun _ hs => Except.ok.inj hs ▸ .text (isText_escaped l.latin s)
  | .list xs => by
      rw [Value.finite, Value.finiteAll_eq, write]
      exact derives_list (derives_writeAll l (depth + 1) xs)
  | .tuple xs => by
      rw [Value.finite, Value.finiteAll_eq, write]
      exact derives_list (derives_writeAll l (depth + 1) xs)
  | .set _ xs => by
      intro s hs
      rw [write] at hs
      obtain ⟨es, hes, hs⟩ := exists_of_bind_eq_ok hs
      obtain ⟨bs, hparts, hall⟩ :=
        exists_forall₂_of_arranged (forall₂_zip (derives_writeAll l (depth + 1) xs)) hes
      rw [Value.finite, Value.finiteAll_eq, ← hall]
      exact derives_list (List.forall₂_map_right_iff.mpr hparts) s hs
  | .map es => by
      intro s hs
      rw [write] at hs
      obtain ⟨es', hes, hs⟩ := exists_of_bind_eq_ok hs
      obtain ⟨bs, hparts, hall⟩ :=
        exists_forall₂_of_arranged (derives_writeEntries l (depth + 1) es) hes
      rw [Value.finite, Value.finiteEntries_eq, ← hall]
      exact derives_object hparts s hs
  | .cell _ v => by
      rw [Value.finite, write]
      exact derives_write l depth v
  | .bytes _ => fun _ hs => by cases hs
  | .absent => fun _ hs => by cases hs
  | .group _ => fun _ hs => by cases hs
  | .settings _ => fun _ hs => by cases hs
  | .object _ _ _ _ => fun _ hs => by cases hs

/-- The items of a list, one by one. -/
theorem derives_writeAll (l : Layout) (depth : ℕ) :
    ∀ xs : List (Value Float),
      List.Forall₂ (Writes (Derives .value)) (xs.map Value.finite) (writeAll l depth xs)
  | [] => .nil
  | v :: rest => .cons (derives_write l depth v) (derives_writeAll l depth rest)

/-- The values of entries, one by one. -/
theorem derives_writeEntries (l : Layout) (depth : ℕ) :
    ∀ es : List (Value Float × Value Float),
      List.Forall₂ (fun strict (e : WrittenEntry) => Writes (Derives .value) strict e.2)
        (es.map fun e => e.2.finite) (writeEntries l depth es)
  | [] => .nil
  | (_, v) :: rest => .cons (derives_write l depth v) (derives_writeEntries l depth rest)

end

/-! ### Values that can be written -/

/-- A value that **can be written**: so can its parts, and the keys of its maps have texts and
an order. -/
inductive Writable : Value Float → Prop where
  | null : Writable .null
  | flag (b : Bool) : Writable (.flag b)
  | int (n : ℤ) : Writable (.int n)
  | real (x : Float) : Writable (.real x)
  | text (s : String) : Writable (.text s)
  | list {xs : List (Value Float)} (h : ∀ v ∈ xs, Writable v) : Writable (.list xs)
  | map {es : List (Value Float × Value Float)} (htext : ∀ e ∈ es, ∃ s, keyText? e.1 = some s)
      (horder : ∀ e ∈ es, ∀ f ∈ es, ∃ b, Value.less? e.1 f.1 = some b)
        (h : ∀ e ∈ es, Writable e.2) :
      Writable (.map es)

/-- A list of texts can be written. -/
theorem writable_texts (xs : List String) : Writable (.texts xs) := by
  refine .list fun v hv => ?_
  obtain ⟨s, -, rfl⟩ := List.mem_map.mp hv
  exact .text s

/-- A list of numbers can be written. -/
theorem writable_reals (xs : List Float) : Writable (.list (xs.map .real)) := by
  refine .list fun v hv => ?_
  obtain ⟨x, -, rfl⟩ := List.mem_map.mp hv
  exact .real x

/-- A record can be written when its fields can. -/
theorem writable_record {fields : List (String × Value Float)} (h : ∀ f ∈ fields, Writable f.2) :
    Writable (.record fields) := by
  refine .map (fun e he => ?_) (fun e he f hf => ?_) (fun e he => ?_)
  · obtain ⟨f, -, rfl⟩ := List.mem_map.mp he
    exact ⟨f.1, rfl⟩
  · obtain ⟨e, -, rfl⟩ := List.mem_map.mp he
    obtain ⟨f, -, rfl⟩ := List.mem_map.mp hf
    exact ⟨_, by rw [Value.less?]⟩
  · obtain ⟨f, hf, rfl⟩ := List.mem_map.mp he
    exact h f hf

/-- Texts that were all written are collected. -/
theorem exists_collect_eq_ok {rs : List (Except WriteError String)} (h : ∀ r ∈ rs, ∃ s, r = .ok s) :
    ∃ items, collect rs = .ok items := by
  induction rs with
  | nil => exact ⟨[], rfl⟩
  | cons r rest ih =>
      rw [List.forall_mem_cons] at h
      obtain ⟨⟨s, rfl⟩, hrest⟩ := h
      obtain ⟨items, hitems⟩ := ih hrest
      exact ⟨s :: items, by rw [collect, hitems, Except.map]⟩

/-- Entries whose keys can be compared can be arranged. -/
theorem exists_arranged_eq_ok (sort : Bool) {es : List WrittenEntry}
    (h : ∀ e ∈ es, ∀ f ∈ es, ∃ b, Value.less? e.1 f.1 = some b) :
    ∃ es', arranged sort es = .ok es' := by
  unfold arranged
  split
  · obtain ⟨sorted, hsorted⟩ := BisectionSort.exists_sort?_eq_some
      (fun e f he hf => h e he f hf) fun e (he : e ∈ es) => he
    rw [Value.sortOn?, hsorted]
    exact ⟨sorted, rfl⟩
  · exact ⟨es, rfl⟩

/-- Entries are written when their keys have texts and can be compared and their values are
written. -/
theorem exists_collect_entries_eq_ok (l : Layout) (es : List WrittenEntry)
    (htext : ∀ e ∈ es, ∃ k, keyText? e.1 = some k) (hvalue : ∀ e ∈ es, ∃ s, e.2 = .ok s)
    (horder : ∀ e ∈ es, ∀ f ∈ es, ∃ b, Value.less? e.1 f.1 = some b) :
    ∃ es' items, arranged l.sortKeys es = .ok es' ∧
      collect (es'.map (entryText l)) = .ok items := by
  obtain ⟨es', harranged⟩ := exists_arranged_eq_ok l.sortKeys horder
  have hentries : ∀ r ∈ es'.map (entryText l), ∃ s, r = .ok s := by
    intro r hr
    obtain ⟨e, he, rfl⟩ := List.mem_map.mp hr
    have hmem := (perm_of_arranged harranged).mem_iff.mp he
    obtain ⟨k, hk⟩ := htext e hmem
    obtain ⟨s, hs⟩ := hvalue e hmem
    rw [entryText, hk, hs]
    exact ⟨_, rfl⟩
  obtain ⟨items, hcollect⟩ := exists_collect_eq_ok hentries
  exact ⟨es', items, harranged, hcollect⟩

/-- The elements of a list are written one by one. -/
theorem writeAll_eq (l : Layout) (depth : ℕ) (xs : List (Value Float)) :
    writeAll l depth xs = xs.map (write l depth) := by
  induction xs with
  | nil => rfl
  | cons v rest ih => rw [writeAll, ih, List.map_cons]

/-- The entries of a map are written one by one. -/
theorem writeEntries_eq (l : Layout) (depth : ℕ) (es : List (Value Float × Value Float)) :
    writeEntries l depth es = es.map fun e => (e.1, write l depth e.2) := by
  induction es with
  | nil => rfl
  | cons e rest ih => rw [writeEntries, ih, List.map_cons]

/-- **A value that can be written is written**, in every layout. Induction on the value. -/
theorem Writable.exists_write_eq_ok {v : Value Float} (h : Writable v) (l : Layout) (depth : ℕ) :
    ∃ s, write l depth v = .ok s := by
  induction h generalizing depth with
  | null => exact ⟨_, rfl⟩
  | flag b => exact ⟨_, rfl⟩
  | int n => exact ⟨_, rfl⟩
  | real x => exact ⟨_, rfl⟩
  | text s => exact ⟨_, rfl⟩
  | @list xs _ ih =>
      have hitems : ∀ r ∈ writeAll l (depth + 1) xs, ∃ s, r = .ok s := by
        rw [writeAll_eq]
        intro r hr
        obtain ⟨v, hv, rfl⟩ := List.mem_map.mp hr
        exact ih v hv (depth + 1)
      obtain ⟨items, hcollect⟩ := exists_collect_eq_ok hitems
      exact ⟨_, by rw [write, hcollect, Except.map]⟩
  | @map es htext horder _ ih =>
      have hvalue : ∀ e ∈ es, ∃ s, write l (depth + 1) e.2 = .ok s :=
        fun e he => ih e he (depth + 1)
      obtain ⟨es', items, harranged, hcollect⟩ := exists_collect_entries_eq_ok l
        (es.map fun e => (e.1, write l (depth + 1) e.2))
        (List.forall_mem_map.mpr htext) (List.forall_mem_map.mpr hvalue)
        (List.forall_mem_map.mpr fun e he => List.forall_mem_map.mpr (horder e he))
      refine ⟨l.enclose depth "\x7b" "\x7d" items, ?_⟩
      rw [write, writeEntries_eq, harranged]
      show (collect (es'.map (entryText l))).map _ = _
      rw [hcollect, Except.map]

/-- **A value that is written**, with blanks after it, is strict JSON exactly when all its
scalars are finite. -/
theorem isStrictJson_append_iff {l : Layout} {v : Value Float} {s after : String}
    (h : document l v = .ok s) (ha : IsBlank after.toList) :
    IsStrictJson (s ++ after) ↔ v.finite = true := by
  have helement : Derives .element v.finite (s ++ after).toList := by
    simpa using Derives.element isBlank_nil (derives_write l 0 v s h) ha
  refine ⟨fun hstrict => helement.strict_unique hstrict, fun hfinite => ?_⟩
  rwa [hfinite] at helement

end Json

end Linkage
