import Mathlib
import Linkage.Json.Reader

/-!
# The grammar of documents

Which texts are documents is said here apart from how they are written and read. A value is a
word, a number, a text, a list or an object, and blanks may stand around every part.

Some programs also write undefined and unbounded numbers, as words that the grammar does not
have. A derivation says whether it does without them: then it is *strict*. No text has both a
strict derivation and another one, because the words begin with letters that stand nowhere else
outside quotation marks.

## Main results

* `leaves_text`: a text leaves nothing outside quotation marks.
* `Derives.shows`: a strict derivation leaves no letter outside quotation marks with which a
  word for an undefined or an unbounded number begins, and every other one does.
* `Derives.strict_unique`: whether a text is strict does not depend on its derivation.
-/

namespace Linkage.Json

/-! ### Numbers and texts -/

/-- A row of one or more digits. -/
def IsDigits (cs : List Char) : Prop := cs ≠ [] ∧ ∀ c ∈ cs, c.isDigit = true

/-- A **whole number** without a sign: zero, or digits of which the first is not zero. -/
inductive IsWhole : List Char → Prop where
  | zero : IsWhole ['0']
  | digits {c : Char} {cs : List Char} (hne : c ≠ '0') (h : IsDigits (c :: cs)) : IsWhole (c :: cs)

/-- What may follow a whole number: nothing, or digits after a point. -/
inductive IsFraction : List Char → Prop where
  | nil : IsFraction []
  | point {cs : List Char} (h : IsDigits cs) : IsFraction ('.' :: cs)

/-- What may follow a fraction: nothing, or an exponent with or without a sign. -/
inductive IsExponent : List Char → Prop where
  | nil : IsExponent []
  | digits {mark : Char} {cs : List Char} (hmark : mark ∈ ['e', 'E']) (h : IsDigits cs) :
      IsExponent (mark :: cs)
  | signed {mark sign : Char} {cs : List Char} (hmark : mark ∈ ['e', 'E'])
      (hsign : sign ∈ ['+', '-'])
      (h : IsDigits cs) : IsExponent (mark :: sign :: cs)

/-- A number **without a sign**. -/
inductive IsMagnitude : List Char → Prop where
  | parts {whole fraction exponent : List Char} (hw : IsWhole whole) (hf : IsFraction fraction)
      (he : IsExponent exponent) : IsMagnitude (whole ++ (fraction ++ exponent))

/-- A **number**. -/
inductive IsNumber : List Char → Prop where
  | unsigned {cs : List Char} (h : IsMagnitude cs) : IsNumber cs
  | negative {cs : List Char} (h : IsMagnitude cs) : IsNumber ('-' :: cs)

/-- What may stand **between quotation marks**: characters that are neither controls nor marks,
letters after a backslash, and numbers of four hexadecimal digits. -/
inductive IsTextBody : List Char → Prop where
  | nil : IsTextBody []
  | char {c : Char} {cs : List Char} (hquote : c ≠ '"') (hslash : c ≠ '\\')
      (hcontrol : 32 ≤ c.toNat)
      (h : IsTextBody cs) : IsTextBody (c :: cs)
  | escape {c : Char} {cs : List Char} (hc : c ∈ ['"', '\\', '/', 'b', 'f', 'n', 'r', 't'])
      (h : IsTextBody cs) : IsTextBody ('\\' :: c :: cs)
  | unit {p q r s : Char} {cs : List Char}
      (hdigits : ∀ c ∈ [p, q, r, s], (hexDigit? c).isSome = true)
      (h : IsTextBody cs) : IsTextBody ('\\' :: 'u' :: p :: q :: r :: s :: cs)

/-- Two parts between quotation marks are one. -/
theorem IsTextBody.append {cs ds : List Char} (hc : IsTextBody cs) (hd : IsTextBody ds) :
    IsTextBody (cs ++ ds) := by
  induction hc with
  | nil => exact hd
  | char hquote hslash hcontrol _ ih => exact .char hquote hslash hcontrol ih
  | escape hc _ ih => exact .escape hc ih
  | unit hdigits _ ih => exact .unit hdigits ih

/-- A **text**: what may stand between quotation marks, between quotation marks. -/
inductive IsText : List Char → Prop where
  | quoted {cs : List Char} (h : IsTextBody cs) : IsText ('"' :: (cs ++ ['"']))

/-! ### Values -/

/-- Blanks between the parts of a document. -/
def IsBlank (cs : List Char) : Prop := ∀ c ∈ cs, isSpace c = true

/-- The symbols of the grammar. -/
inductive Symbol where
  /-- A value. -/
  | value
  /-- A value with blanks around it. -/
  | element
  /-- One or more elements, with commas between them. -/
  | elements
  /-- An element with its name. -/
  | member
  /-- One or more members, with commas between them. -/
  | members

/-- What the symbols of the **grammar** stand for. A derivation is strict unless it uses one of
the words for undefined and unbounded numbers. -/
inductive Derives : Symbol → Bool → List Char → Prop where
  | word {w : String} (h : w ∈ ["null", "true", "false"]) : Derives .value true w.toList
  | number {cs : List Char} (h : IsNumber cs) : Derives .value true cs
  | special {w : String} (h : w ∈ ["NaN", "Infinity", "-Infinity"]) : Derives .value false w.toList
  | text {cs : List Char} (h : IsText cs) : Derives .value true cs
  | emptyList {ws : List Char} (h : IsBlank ws) : Derives .value true ('[' :: (ws ++ [']']))
  | list {strict : Bool} {cs : List Char} (h : Derives .elements strict cs) :
      Derives .value strict ('[' :: (cs ++ [']']))
  | emptyObject {ws : List Char} (h : IsBlank ws) : Derives .value true ('\x7b' :: (ws ++ ['\x7d']))
  | object {strict : Bool} {cs : List Char} (h : Derives .members strict cs) :
      Derives .value strict ('\x7b' :: (cs ++ ['\x7d']))
  | element {strict : Bool} {before cs after : List Char} (hb : IsBlank before)
      (h : Derives .value strict cs) (ha : IsBlank after) :
      Derives .element strict (before ++ (cs ++ after))
  | lastElement {strict : Bool} {cs : List Char} (h : Derives .element strict cs) :
      Derives .elements strict cs
  | nextElement {strict rest : Bool} {cs ds : List Char} (h : Derives .element strict cs)
      (hrest : Derives .elements rest ds) : Derives .elements (strict && rest) (cs ++ ',' :: ds)
  | member {strict : Bool} {before name after cs : List Char} (hb : IsBlank before)
      (hn : IsText name)
      (ha : IsBlank after) (h : Derives .element strict cs) :
      Derives .member strict (before ++ (name ++ (after ++ ':' :: cs)))
  | lastMember {strict : Bool} {cs : List Char} (h : Derives .member strict cs) :
      Derives .members strict cs
  | nextMember {strict rest : Bool} {cs ds : List Char} (h : Derives .member strict cs)
      (hrest : Derives .members rest ds) : Derives .members (strict && rest) (cs ++ ',' :: ds)

/-- A text is **strict JSON** when it has a strict derivation. -/
def IsStrictJson (s : String) : Prop := Derives .element true s.toList

/-! ### What stands outside quotation marks -/

/-- Where a character of a document stands. -/
inductive Region where
  /-- Outside quotation marks. -/
  | outside
  /-- Between quotation marks. -/
  | inside
  /-- Between quotation marks, after a backslash. -/
  | escaped

/-- The characters of a document that stand **outside quotation marks**, from a region on. -/
def bareFrom : Region → List Char → List Char
  | _, [] => []
  | .outside, c :: cs => if c = '"' then bareFrom .inside cs else c :: bareFrom .outside cs
  | .inside, c :: cs =>
    if c = '"' then bareFrom .outside cs
    else if c = '\\' then bareFrom .escaped cs
    else bareFrom .inside cs
  | .escaped, _ :: cs => bareFrom .inside cs

/-- A part of a document **leaves** some characters outside quotation marks, whatever follows
it. -/
def Leaves (cs bare : List Char) : Prop :=
  ∀ rest, bareFrom .outside (cs ++ rest) = bare ++ bareFrom .outside rest

/-- Two parts leave what each of them leaves. -/
theorem Leaves.append {cs ds bare bare' : List Char} (hc : Leaves cs bare) (hd : Leaves ds bare') :
    Leaves (cs ++ ds) (bare ++ bare') := fun rest => by
  rw [List.append_assoc, hc, hd, List.append_assoc]

/-- A character outside quotation marks is left. -/
theorem Leaves.cons {c : Char} {cs bare : List Char} (hne : c ≠ '"') (h : Leaves cs bare) :
    Leaves (c :: cs) (c :: bare) := fun rest => by
  rw [List.cons_append, bareFrom, if_neg hne, h, List.cons_append]

/-- Characters that are no quotation marks are left outside them. -/
theorem leaves_self {cs : List Char} (h : '"' ∉ cs) : Leaves cs cs := by
  induction cs with
  | nil => exact fun _ => rfl
  | cons c cs ih =>
      rw [List.mem_cons, not_or] at h
      exact .cons (Ne.symm h.1) (ih h.2)

/-- A text leaves nothing outside quotation marks. Induction on what stands between them. -/
theorem leaves_text {cs : List Char} (h : IsText cs) : Leaves cs [] := by
  obtain @⟨body, hbody⟩ := h
  intro rest
  have hinside : bareFrom .inside (body ++ '"' :: rest) = bareFrom .outside rest := by
    induction hbody with
    | nil => simp [bareFrom]
    | char hquote hslash _ _ ih => simp [bareFrom, hquote, hslash, ih]
    | escape hc _ ih => simp [bareFrom, ih]
    | unit hdigits _ ih =>
        have hne : ∀ c, (hexDigit? c).isSome = true → c ≠ '"' ∧ c ≠ '\\' := by
          intro c hc
          constructor <;> rintro rfl <;> revert hc <;> decide
        simp only [List.forall_mem_cons] at hdigits
        obtain ⟨hp, hq, hr, hs, -⟩ := hdigits
        simp [bareFrom, hne _ hp, hne _ hq, hne _ hr, hne _ hs, ih]
  simp [bareFrom, hinside]

/-! ### Strict texts -/

/-- Whether a character neither is a quotation mark nor begins a word for an undefined or an
unbounded number. -/
def isPlain (c : Char) : Bool := c != '"' && c != 'N' && c != 'I'

/-- A part of a document **shows** whether it is strict: strict ones leave plain characters
only. -/
def Shows (strict : Bool) (cs : List Char) : Prop :=
  ∃ bare, Leaves cs bare ∧ bare.all isPlain = strict

namespace Shows

variable {strict rest : Bool} {cs ds : List Char}

/-- Two parts together are strict when both are. -/
theorem append (hc : Shows strict cs) (hd : Shows rest ds) : Shows (strict && rest) (cs ++ ds) := by
  obtain ⟨bare, hleaves, rfl⟩ := hc
  obtain ⟨bare', hleaves', rfl⟩ := hd
  exact ⟨bare ++ bare', hleaves.append hleaves', List.all_append⟩

/-- Plain characters are strict. -/
theorem of_plain (h : ∀ c ∈ cs, isPlain c = true) : Shows true cs := by
  refine ⟨cs, leaves_self fun hquote => ?_, List.all_eq_true.mpr h⟩
  have := h _ hquote
  contradiction

/-- A text is strict. -/
theorem of_text (h : IsText cs) : Shows true cs := ⟨[], leaves_text h, rfl⟩

/-- A plain character before a part changes nothing. -/
theorem cons {c : Char} (hc : isPlain c = true) (h : Shows strict cs) : Shows strict (c :: cs) := by
  have hfirst : Shows true [c] := .of_plain (by simpa using hc)
  simpa using hfirst.append h

/-- Two characters around a part. -/
theorem enclosed {a b : Char} (ha : isPlain a = true) (hb : isPlain b = true)
    (h : Shows strict cs) : Shows strict (a :: (cs ++ [b])) := by
  have hlast : Shows true [b] := .of_plain (by simpa using hb)
  simpa using cons ha (h.append hlast)

/-- Two parts with a character between them. -/
theorem separated {c : Char} (hc : isPlain c = true) (h : Shows strict cs) (hrest : Shows rest ds) :
    Shows (strict && rest) (cs ++ c :: ds) := h.append (hrest.cons hc)

/-- Whether a part is strict does not depend on how that is shown. -/
theorem unique (h : Shows strict cs) (h' : Shows rest cs) : strict = rest := by
  obtain ⟨bare, hleaves, rfl⟩ := h
  obtain ⟨bare', hleaves', rfl⟩ := h'
  have hbare : bare = bare' := by simpa [bareFrom] using (hleaves []).symm.trans (hleaves' [])
  rw [hbare]

end Shows

/-- Digits are plain. -/
theorem isPlain_of_isDigit {c : Char} (h : c.isDigit = true) : isPlain c = true := by
  have hne : ∀ d : Char, d.isDigit = false → c ≠ d := fun d hd hcd => by rw [hcd, hd] at h; cases h
  simp [isPlain, hne '"' rfl, hne 'N' rfl, hne 'I' rfl]

/-- A number has digits, a point, signs and marks of an exponent only. -/
theorem IsNumber.forall_mem {p : Char → Prop} (hdigit : ∀ c : Char, c.isDigit = true → p c)
    (hother : ∀ c ∈ ['.', 'e', 'E', '+', '-'], p c) {cs : List Char} (h : IsNumber cs) :
    ∀ c ∈ cs, p c := by
  have hdigits : ∀ {ds : List Char}, IsDigits ds → ∀ c ∈ ds, p c := fun hds c hc =>
    hdigit c (hds.2 c hc)
  have hmark : ∀ c ∈ ['e', 'E'], p c := by simp [hother]
  have hsign : ∀ c ∈ ['+', '-'], p c := by simp [hother]
  have hwhole : ∀ {ds : List Char}, IsWhole ds → ∀ c ∈ ds, p c := by
    rintro _ (_ | ⟨-, hds⟩)
    · exact List.forall_mem_singleton.mpr (hdigit _ rfl)
    · exact hdigits hds
  have hfraction : ∀ {ds : List Char}, IsFraction ds → ∀ c ∈ ds, p c := by
    rintro _ (_ | hds)
    · exact fun c hc => absurd hc List.not_mem_nil
    · exact List.forall_mem_cons.mpr ⟨hother _ (by decide), hdigits hds⟩
  have hexponent : ∀ {ds : List Char}, IsExponent ds → ∀ c ∈ ds, p c := by
    rintro _ (_ | ⟨hm, hds⟩ | ⟨hm, hs, hds⟩)
    · exact fun c hc => absurd hc List.not_mem_nil
    · exact List.forall_mem_cons.mpr ⟨hmark _ hm, hdigits hds⟩
    · exact List.forall_mem_cons.mpr ⟨hmark _ hm,
        List.forall_mem_cons.mpr ⟨hsign _ hs, hdigits hds⟩⟩
  have hmagnitude : ∀ {ds : List Char}, IsMagnitude ds → ∀ c ∈ ds, p c := by
    rintro _ ⟨hw, hf, he⟩
    rw [List.forall_mem_append, List.forall_mem_append]
    exact ⟨hwhole hw, hfraction hf, hexponent he⟩
  rcases h with h | h
  · exact hmagnitude h
  · exact List.forall_mem_cons.mpr ⟨hother _ (by decide), hmagnitude h⟩

/-- A number shows that it is strict. -/
theorem IsNumber.shows {cs : List Char} (h : IsNumber cs) : Shows true cs :=
  .of_plain (h.forall_mem (fun _ hc => isPlain_of_isDigit hc) (by simp [isPlain]))

/-- Blanks are strict. -/
theorem IsBlank.shows {cs : List Char} (h : IsBlank cs) : Shows true cs := by
  refine .of_plain fun c hc => ?_
  have hspace := h c hc
  simp only [isSpace, Bool.or_eq_true, beq_iff_eq] at hspace
  rcases hspace with ((rfl | rfl) | rfl) | rfl <;> rfl

/-- **A derivation shows whether it is strict.** -/
theorem Derives.shows {symbol : Symbol} {strict : Bool} {cs : List Char}
    (h : Derives symbol strict cs) : Shows strict cs := by
  induction h with
  | word h =>
      simp only [List.mem_cons, List.not_mem_nil, or_false] at h
      rcases h with rfl | rfl | rfl <;> exact .of_plain (by simp [isPlain])
  | number h => exact h.shows
  | special h =>
      simp only [List.mem_cons, List.not_mem_nil, or_false] at h
      rcases h with rfl | rfl | rfl <;> exact ⟨_, leaves_self (by decide), by decide⟩
  | text h => exact .of_text h
  | emptyList h => exact h.shows.enclosed rfl rfl
  | list _ ih => exact ih.enclosed rfl rfl
  | emptyObject h => exact h.shows.enclosed rfl rfl
  | object _ ih => exact ih.enclosed rfl rfl
  | element hb _ ha ih => simpa using hb.shows.append (ih.append ha.shows)
  | lastElement _ ih => exact ih
  | nextElement _ _ ih ihrest => exact ih.separated rfl ihrest
  | member hb hn ha _ ih =>
      simpa using hb.shows.append ((Shows.of_text hn).append (ha.shows.separated rfl ih))
  | lastMember _ ih => exact ih
  | nextMember _ _ ih ihrest => exact ih.separated rfl ihrest

/-- **Whether a text is strict does not depend on its derivation.** -/
theorem Derives.strict_unique {symbol other : Symbol} {strict strict' : Bool} {cs : List Char}
    (h : Derives symbol strict cs) (h' : Derives other strict' cs) : strict = strict' :=
  h.shows.unique h'.shows

end Linkage.Json
