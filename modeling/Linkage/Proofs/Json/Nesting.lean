import Mathlib
import Linkage.Json.Reader
import Linkage.Proofs.Outcome

/-!
# How deep a text is nested

The nesting of a text is the largest number of brackets and braces that are open in it at once.
It is read off the characters alone: quotation marks begin and end a quoted text, in which
brackets and braces do not count, and a backslash in a quoted text takes away the meaning of
the character after it. A text has its nesting whether it is a document or not.

The reader of documents opens a list or an object where a bracket or a brace stands outside of
every quoted text. With as many levels at its disposal as a text is nested, it never runs out
of them, wherever it stops. The invariant is that the brackets that are open and the levels
that are left are enough for the rest of the text. It is kept by every part of a document, so
that this is shown by induction on the steps, for values, items and fields together.

## Main results

* `readChars_ne_tooDeep`: a text is not too deep for as many levels as it is nested.
* `nesting_trimBlanks_le`: a text without the blanks around it is not nested deeper.
-/

namespace Linkage.Json

/-! ### The brackets that are open -/

/-- Where a character of a text stands. -/
inductive Zone where
  /-- Outside of every quoted text. -/
  | outside
  /-- In a quoted text. -/
  | quoted
  /-- In a quoted text, after a backslash. -/
  | escaped
  deriving DecidableEq, Repr

/-- The zone that a character leads to. -/
def Zone.after : Zone → Char → Zone
  | outside, c => if c = '"' then quoted else outside
  | quoted, c => if c = '"' then outside else if c = '\\' then escaped else quoted
  | escaped, _ => quoted

/-- The number of brackets and braces that are open after a character, when some are
before it. -/
def Zone.opened : Zone → ℕ → Char → ℕ
  | outside, n, c =>
    if c = '[' ∨ c = '\x7b' then n + 1 else if c = ']' ∨ c = '\x7d' then n - 1 else n
  | quoted, n, _ => n
  | escaped, n, _ => n

/-- The largest number of brackets and braces that are open at once in the rest of a text. -/
def peak : Zone → ℕ → List Char → ℕ
  | _, n, [] => n
  | z, n, c :: cs => max n (peak (z.after c) (z.opened n c) cs)

/-- The **nesting** of a text: the largest number of brackets and braces that are open
at once. -/
def nesting (cs : List Char) : ℕ := peak .outside 0 cs

variable {z : Zone} {n bound : ℕ} {c : Char} {cs : List Char}

/-- The brackets that are open at a place count. -/
theorem le_peak (z : Zone) (n : ℕ) (cs : List Char) : n ≤ peak z n cs := by
  cases cs with
  | nil => exact le_rfl
  | cons c cs => exact le_max_left _ _

/-- What is open at once after a character is open at once. -/
theorem peak_le_peak_cons : peak (z.after c) (z.opened n c) cs ≤ peak z n (c :: cs) :=
  le_max_right _ _

/-- What is open at once in the beginning of a text is open at once in the text. -/
theorem peak_le_peak_append (xs ys : List Char) : peak z n xs ≤ peak z n (xs ++ ys) := by
  induction xs generalizing z n with
  | nil => exact le_peak z n ys
  | cons x xs ih => exact max_le_max le_rfl ih

/-! ### Characters that open and close nothing -/

/-- The characters that open or close something outside of quoted texts. -/
def marks : List Char := ['"', '[', ']', '\x7b', '\x7d']

/-- A character that opens and closes nothing may be passed over. -/
theorem peak_le_peak_cons_of_notMem (hc : c ∉ marks) :
    peak .outside n cs ≤ peak .outside n (c :: cs) := by
  simp only [marks, List.mem_cons, List.not_mem_nil, or_false, not_or] at hc
  have hstep := @peak_le_peak_cons .outside n c cs
  simpa only [Zone.after, Zone.opened, hc, or_self, if_false] using hstep

/-- Characters at the beginning that open and close nothing may be passed over. -/
theorem peak_dropWhile_le {p : Char → Bool} (hp : ∀ c ∈ marks, p c = false) (cs : List Char) :
    peak .outside n (cs.dropWhile p) ≤ peak .outside n cs := by
  induction cs with
  | nil => exact le_rfl
  | cons c cs ih =>
      rw [List.dropWhile_cons]
      split
      · next hc =>
        have hmark : c ∉ marks := fun hmem => by simp [hp c hmem] at hc
        exact ih.trans (peak_le_peak_cons_of_notMem hmark)
      · exact le_rfl

/-- Digits open and close nothing. -/
theorem peak_dropWhile_isDigit_le (cs : List Char) :
    peak .outside n (cs.dropWhile Char.isDigit) ≤ peak .outside n cs :=
  peak_dropWhile_le (by simp [marks]) cs

/-- Blanks between the parts of a document open and close nothing. -/
theorem peak_skipSpace_le (cs : List Char) : peak .outside n (skipSpace cs) ≤ peak .outside n cs :=
  peak_dropWhile_le (by simp [marks, isSpace]) cs

/-- **A text without the blanks around it** is not nested deeper. -/
theorem nesting_trimBlanks_le (cs : List Char) : nesting (Text.trimBlanks cs) ≤ nesting cs := by
  have hbefore : nesting (cs.dropWhile Text.isBlank) ≤ nesting cs :=
    peak_dropWhile_le (by simp [marks, Text.isBlank, Text.blankRanges]) cs
  obtain ⟨blanks, hblanks⟩ : Text.trimBlanks cs <+: cs.dropWhile Text.isBlank :=
    List.rdropWhile_prefix _ _
  refine le_trans ?_ hbefore
  rw [← hblanks]
  exact peak_le_peak_append _ _

/-! ### Parts of a document -/

/-- What is read **stays within** a bound: it does not go too deep, and where it stops,
with some brackets and braces open, the rest of the text does not open more of them than
the bound. -/
structure Within {β : Type} (bound n : ℕ) (r : Except ReadError (β × List Char)) : Prop where
  /-- It does not go too deep. -/
  shallow : r ≠ .error .tooDeep
  /-- What the rest of the text opens. -/
  rest : ∀ x, r = .ok x → peak .outside n x.2 ≤ bound

namespace Within

variable {β γ : Type} {m : ℕ} {r : Except ReadError (β × List Char)}

/-- What has been read stays within a bound when the rest of the text does. -/
theorem ok {x : β} (h : peak .outside n cs ≤ bound) : Within bound n (.ok (x, cs)) :=
  ⟨by simp, fun y hy => by obtain rfl := Except.ok.inj hy; exact h⟩

/-- A text that departs from the grammar stays within every bound. -/
theorem malformed : Within bound n (.error .malformed : ReadStep β) :=
  ⟨by simp, fun _ h => by cases h⟩

/-- A number of too many digits stays within every bound. -/
theorem tooLong {digits : ℕ} : Within bound n (.error (.tooLong digits) : ReadStep β) :=
  ⟨by simp, fun _ h => by cases h⟩

/-- What is read may be taken for something else. -/
theorem map (f : β → γ) (h : Within bound n r) :
    Within bound n (r.map fun x => (f x.1, x.2)) := by
  cases r with
  | error e => exact ⟨fun he => h.shallow (congrArg _ (Except.error.inj he)), fun _ h => by cases h⟩
  | ok x => exact .ok (h.rest x rfl)

/-- What is read after a part stays within the bound when it does so on the rest of
the text. -/
theorem bind {f : β × List Char → Except ReadError (γ × List Char)} (h : Within bound m r)
    (hf : ∀ x cs, peak .outside m cs ≤ bound → Within bound n (f (x, cs))) :
    Within bound n (r >>= f) := by
  cases r with
  | error e => exact ⟨fun he => h.shallow (congrArg _ (Except.error.inj he)), fun _ h => by cases h⟩
  | ok x => exact hf x.1 x.2 (h.rest x rfl)

end Within

/-! ### Texts and numbers -/

/-- A character of a quoted text is passed over, unless it ends the text or is a backslash. -/
theorem peak_quoted_le (hquote : c ≠ '"') (hescape : c ≠ '\\') :
    peak .quoted n cs ≤ peak .quoted n (c :: cs) := by
  have hstep := @peak_le_peak_cons .quoted n c cs
  simpa only [Zone.after, Zone.opened, hquote, hescape, if_false] using hstep

/-- A character after a backslash is passed over. -/
theorem peak_escaped_le : peak .quoted n cs ≤ peak .quoted n ('\\' :: c :: cs) :=
  (@peak_le_peak_cons .escaped n c cs).trans (@peak_le_peak_cons .quoted n '\\' (c :: cs))

/-- A hexadecimal digit is passed over in a quoted text. -/
theorem peak_quoted_le_of_hexDigit? {d : ℕ} (h : hexDigit? c = some d) :
    peak .quoted n cs ≤ peak .quoted n (c :: cs) := by
  refine peak_quoted_le ?_ ?_
  · rintro rfl
    simp [hexDigit?] at h
  · rintro rfl
    simp [hexDigit?] at h

/-- The number of a character in a quoted text is passed over. -/
theorem peak_hexUnit_le {a b d : Char} {u : ℕ} (h : hexUnit? a b c d = some u) :
    peak .quoted n cs ≤ peak .quoted n ('\\' :: 'u' :: a :: b :: c :: d :: cs) := by
  simp only [hexUnit?, Option.bind_eq_bind, Option.bind_eq_some_iff] at h
  obtain ⟨x, ha, y, hb, z, hc, w, hd, -⟩ := h
  calc peak .quoted n cs ≤ peak .quoted n (d :: cs) := peak_quoted_le_of_hexDigit? hd
    _ ≤ peak .quoted n (c :: d :: cs) := peak_quoted_le_of_hexDigit? hc
    _ ≤ peak .quoted n (b :: c :: d :: cs) := peak_quoted_le_of_hexDigit? hb
    _ ≤ peak .quoted n (a :: b :: c :: d :: cs) := peak_quoted_le_of_hexDigit? ha
    _ ≤ peak .quoted n ('\\' :: 'u' :: a :: b :: c :: d :: cs) := peak_escaped_le

/-- **A quoted text** is read within the bound. -/
theorem within_textUnits (h : peak .quoted n cs ≤ bound) : Within bound n (textUnits cs) := by
  fun_induction textUnits cs with
  | case1 => exact .malformed
  | case2 rest => exact .ok ((@peak_le_peak_cons .quoted n '"' rest).trans h)
  | case3 a b c d rest hunit => exact .malformed
  | case4 a b c d rest u hunit ih => exact .map _ (ih ((peak_hexUnit_le hunit).trans h))
  | case5 c rest _ hunit => exact .malformed
  | case6 c rest _ u hunit ih => exact .map _ (ih (peak_escaped_le.trans h))
  | case7 c rest hquote _ _ hc => exact .malformed
  | case8 c rest hquote _ _ hc ih =>
      exact .map _ (ih ((peak_quoted_le hquote fun hescape => hc (.inr hescape)).trans h))

/-- Characters of a word that open and close nothing are passed over. -/
theorem peak_append_le {pre : List Char} (hpre : ∀ c ∈ pre, c ∉ marks) :
    peak .outside n cs ≤ peak .outside n (pre ++ cs) := by
  induction pre with
  | nil => exact le_rfl
  | cons c pre ih =>
      rw [List.forall_mem_cons] at hpre
      exact (ih hpre.2).trans (peak_le_peak_cons_of_notMem hpre.1)

/-- A word is passed over. -/
theorem peak_afterWord?_le {w : String} {rest : List Char} (hw : ∀ c ∈ w.toList, c ∉ marks)
    (h : afterWord? w cs = some rest) : peak .outside n rest ≤ peak .outside n cs := by
  rw [afterWord?, Option.ite_none_right_eq_some, List.isPrefixOf_iff_prefix] at h
  obtain ⟨⟨after, rfl⟩, hrest⟩ := h
  obtain rfl : after = rest := by simpa [← String.length_toList] using hrest
  exact peak_append_le hw

/-- A sign is passed over. -/
theorem peak_sign_le : peak .outside n (Reading.sign cs).2 ≤ peak .outside n cs := by
  rw [Reading.sign.eq_def]
  split
  · exact peak_le_peak_cons_of_notMem (by decide)
  · exact peak_le_peak_cons_of_notMem (by decide)
  · exact le_rfl

/-- The whole part of a number is passed over. -/
theorem peak_wholeDigits_le : peak .outside n (wholeDigits cs).2 ≤ peak .outside n cs := by
  rw [wholeDigits.eq_def]
  split
  · exact peak_le_peak_cons_of_notMem (by decide)
  · exact peak_dropWhile_isDigit_le _

/-- The fraction of a number is passed over. -/
theorem peak_fractionPart_le : peak .outside n (fractionPart cs).2 ≤ peak .outside n cs := by
  rw [fractionPart.eq_def]
  split
  · split
    · exact le_rfl
    · exact (peak_dropWhile_isDigit_le _).trans (peak_le_peak_cons_of_notMem (by decide))
  · exact le_rfl

/-- The exponent of a number is passed over. -/
theorem peak_exponentPart_le : peak .outside n (exponentPart cs).2 ≤ peak .outside n cs := by
  rw [exponentPart.eq_def]
  split
  · next c rest =>
    split
    · next hc =>
      have hmark : c ∉ marks := by rcases hc with rfl | rfl <;> decide
      simp only
      split
      · exact le_rfl
      · exact ((peak_dropWhile_isDigit_le _).trans peak_sign_le).trans
          (peak_le_peak_cons_of_notMem hmark)
    · exact le_rfl
  · exact le_rfl

/-- **A number** is read within the bound. -/
theorem within_numberBody {negative : Bool} (h : peak .outside n cs ≤ bound) :
    Within bound n (numberBody negative cs) := by
  have hnumber : peak .outside n (exponentPart (fractionPart (wholeDigits cs).2).2).2 ≤ bound :=
    calc _ ≤ peak .outside n (fractionPart (wholeDigits cs).2).2 := peak_exponentPart_le
      _ ≤ peak .outside n (wholeDigits cs).2 := peak_fractionPart_le
      _ ≤ peak .outside n cs := peak_wholeDigits_le
      _ ≤ bound := h
  rw [numberBody.eq_def]
  split
  · exact .malformed
  · next whole rest _ hwhole =>
    rw [hwhole] at hnumber
    simp only
    split
    · split
      · exact .tooLong
      · exact .ok hnumber
    · exact .ok hnumber

/-- The words of documents open and close nothing. -/
theorem notMem_marks_of_words : ∀ w ∈ words, ∀ c ∈ w.1.toList, c ∉ marks := by
  simp [words, marks]

/-- **A value without parts** that is no text is read within the bound. -/
theorem within_plainValue (h : peak .outside n cs ≤ bound) : Within bound n (plainValue cs) := by
  rw [plainValue.eq_def]
  split
  · next r hfind =>
    obtain ⟨w, hw, hword⟩ := List.exists_of_findSome?_eq_some hfind
    obtain ⟨rest, hrest, rfl⟩ := Option.map_eq_some_iff.mp hword
    exact .ok ((peak_afterWord?_le (notMem_marks_of_words w hw) hrest).trans h)
  · split
    · exact within_numberBody ((peak_le_peak_cons_of_notMem (by decide)).trans h)
    · exact within_numberBody h

/-! ### Values, items and fields -/

/-- With a number of steps, the reader stays within the bound that is given by the brackets and
braces that are open and the levels that are left. -/
structure StaysWithin (steps : ℕ) : Prop where
  /-- A value is read with the same brackets open before and after it. -/
  value : ∀ levels n cs, peak .outside n cs ≤ n + levels →
    Within (n + levels) n (readValue steps levels cs)
  /-- The items of a list are read up to its closing bracket. -/
  items : ∀ levels n cs, peak .outside (n + 1) cs ≤ n + 1 + levels →
    Within (n + 1 + levels) n (readItems steps levels cs)
  /-- The fields of an object are read up to its closing brace. -/
  fields : ∀ levels n held cs, peak .outside (n + 1) cs ≤ n + 1 + levels →
    Within (n + 1 + levels) n (readFields steps levels held cs)

/-- A bracket or a brace that opens something is open after it. -/
theorem peak_succ_le_of_opens (hc : c = '[' ∨ c = '\x7b') :
    peak .outside (n + 1) cs ≤ peak .outside n (c :: cs) := by
  have hstep := @peak_le_peak_cons .outside n c cs
  rcases hc with rfl | rfl <;> simpa [Zone.after, Zone.opened] using hstep

/-- Where a bracket or a brace opens something, a level is left for it. -/
theorem exists_level_of_opens {levels : ℕ} (hc : c = '[' ∨ c = '\x7b')
    (h : peak .outside n (c :: cs) ≤ n + levels) :
    ∃ left, levels = left + 1 ∧ n + levels = n + 1 + left ∧
      peak .outside (n + 1) (skipSpace cs) ≤ n + 1 + left := by
  have hopen : peak .outside (n + 1) cs ≤ n + levels := (peak_succ_le_of_opens hc).trans h
  have hlevel : n + 1 ≤ n + levels := (le_peak .outside (n + 1) cs).trans hopen
  obtain ⟨left, rfl⟩ : ∃ left, levels = left + 1 := ⟨levels - 1, by omega⟩
  have hsame : n + (left + 1) = n + 1 + left := by omega
  exact ⟨left, rfl, hsame, (peak_skipSpace_le cs).trans (hopen.trans_eq hsame)⟩

/-- A bracket or a brace that closes something is no longer open after it. -/
theorem peak_le_of_closes (hc : c = ']' ∨ c = '\x7d') :
    peak .outside n cs ≤ peak .outside (n + 1) (c :: cs) := by
  have hstep := @peak_le_peak_cons .outside (n + 1) c cs
  rcases hc with rfl | rfl <;> simpa [Zone.after, Zone.opened] using hstep

/-- A quoted text begins after its quotation mark. -/
theorem peak_quoted_le_of_quote : peak .quoted n cs ≤ peak .outside n ('"' :: cs) :=
  @peak_le_peak_cons .outside n '"' cs

/-- A text is read within the bound. -/
theorem within_textBody (h : peak .outside n ('"' :: cs) ≤ bound) :
    Within bound n (textBody cs) :=
  .map (fun units => String.ofList (joined units))
    (within_textUnits (peak_quoted_le_of_quote.trans h))

namespace StaysWithin

variable {steps levels : ℕ} (ih : StaysWithin steps)

include ih

/-- With one step more, a value is read within the bound. -/
theorem value_succ (h : peak .outside n cs ≤ n + levels) :
    Within (n + levels) n (readValue (steps + 1) levels cs) := by
  rw [readValue.eq_def]
  simp only
  split
  · exact .map _ (within_textBody h)
  · obtain ⟨left, rfl, hsame, hrest⟩ := exists_level_of_opens (.inl rfl) h
    rw [hsame]
    simp only
    split
    · next hclose =>
      rw [hclose] at hrest
      exact .ok ((peak_le_of_closes (.inl rfl)).trans hrest)
    · exact .map _ (ih.items _ _ _ hrest)
  · obtain ⟨left, rfl, hsame, hrest⟩ := exists_level_of_opens (.inr rfl) h
    rw [hsame]
    simp only
    split
    · next hclose =>
      rw [hclose] at hrest
      exact .ok ((peak_le_of_closes (.inr rfl)).trans hrest)
    · exact .map (fun m => Value.record m.entries) (ih.fields _ _ _ _ hrest)
  · exact within_plainValue h

/-- With one step more, the items of a list are read within the bound. -/
theorem items_succ (h : peak .outside (n + 1) cs ≤ n + 1 + levels) :
    Within (n + 1 + levels) n (readItems (steps + 1) levels cs) := by
  rw [readItems]
  refine .bind (ih.value _ _ _ h) fun v rest hrest => ?_
  have hnext := (peak_skipSpace_le rest).trans hrest
  simp only
  split
  · next hclose =>
    rw [hclose] at hnext
    exact .ok ((peak_le_of_closes (.inl rfl)).trans hnext)
  · next after hcomma =>
    rw [hcomma] at hnext
    have hafter := (peak_le_peak_cons_of_notMem (by decide)).trans hnext
    exact .map _ (ih.items _ _ _ ((peak_skipSpace_le after).trans hafter))
  · exact .malformed

/-- With one step more, the fields of an object are read within the bound. -/
theorem fields_succ {held : OrderedMap String (Value Float)}
    (h : peak .outside (n + 1) cs ≤ n + 1 + levels) :
    Within (n + 1 + levels) n (readFields (steps + 1) levels held cs) := by
  rw [readFields.eq_def]
  simp only
  split
  · refine .bind (within_textBody h) fun name rest hrest => ?_
    have hcolon := (peak_skipSpace_le rest).trans hrest
    simp only
    split
    · next after hafter =>
      rw [hafter] at hcolon
      have hvalue := (peak_le_peak_cons_of_notMem (by decide)).trans hcolon
      refine .bind (ih.value _ _ _ ((peak_skipSpace_le after).trans hvalue)) fun v rest hrest => ?_
      have hnext := (peak_skipSpace_le rest).trans hrest
      simp only
      split
      · next hclose =>
        rw [hclose] at hnext
        exact .ok ((peak_le_of_closes (.inr rfl)).trans hnext)
      · next after hcomma =>
        rw [hcomma] at hnext
        have hafter := (peak_le_peak_cons_of_notMem (by decide)).trans hnext
        exact ih.fields _ _ _ _ ((peak_skipSpace_le after).trans hafter)
      · exact .malformed
    · exact .malformed
  · exact .malformed

end StaysWithin

/-- With any number of steps, the reader stays within the bound. -/
theorem staysWithin (steps : ℕ) : StaysWithin steps := by
  induction steps with
  | zero =>
      exact ⟨fun _ _ _ _ => .malformed, fun _ _ _ _ => .malformed, fun _ _ _ _ _ => .malformed⟩
  | succ steps ih =>
      exact ⟨fun _ _ _ => ih.value_succ, fun _ _ _ => ih.items_succ, fun _ _ _ _ => ih.fields_succ⟩

/-- **A text is not too deep** for as many levels as it is nested. -/
theorem readChars_ne_tooDeep {levels : ℕ} (h : nesting cs ≤ levels) :
    readChars levels cs ≠ .error .tooDeep := by
  have hbegin : peak .outside 0 (skipSpace cs) ≤ 0 + levels := by
    rw [Nat.zero_add]
    exact (peak_skipSpace_le cs).trans h
  intro hdeep
  rcases bind_eq_error_iff.mp hdeep with hvalue | ⟨⟨v, rest⟩, -, hrest⟩
  · exact ((staysWithin _).value _ _ _ hbegin).shallow hvalue
  · simp only at hrest
    split at hrest <;> cases hrest

end Linkage.Json
