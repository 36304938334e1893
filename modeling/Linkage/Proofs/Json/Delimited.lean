import Mathlib
import Linkage.Json.Reader
import Linkage.Json.Writer

/-!
# Texts that tell their ends

A text between quotation marks is read back as it was: what is escaped is never a quotation
mark. So it can be told from what follows it, whatever that is. The same holds for a list
between brackets when it holds for its items and no item begins as the closing bracket does,
and then the items can be told one by one.

## Main results

* `textBody_escaped`: a text that is written is read back.
* `tellsApart_escaped`, `tellsApart_enclose`: texts, and lists of what tells its end, tell
  their ends.
-/

namespace Linkage.Json

/-! ### Texts are read back -/

/-- A control is escaped with the four digits of its number. -/
theorem exists_hexadecimal_eq {n : ℕ} (hn : n < 32) :
    ∃ a b c d, Text.hexadecimal 4 n = [a, b, c, d] ∧ hexUnit? a b c d = some n := by
  interval_cases n <;> exact ⟨_, _, _, _, rfl, rfl⟩

/-- A character is read back. The cases are those of the escapes. -/
theorem textUnits_escapedChar (c : Char) (rest : List Char) :
    textUnits (escapedChar false c ++ rest) =
      (textUnits rest).map fun r => (c.toNat :: r.1, r.2) := by
  by_cases hshort : c ∈ ['"', '\\', '\n', '\r', '\t', '\x08', '\x0c']
  · simp only [List.mem_cons, List.not_mem_nil, or_false] at hshort
    rcases hshort with rfl | rfl | rfl | rfl | rfl | rfl | rfl <;> rfl
  simp only [List.mem_cons, List.not_mem_nil, or_false, not_or] at hshort
  obtain ⟨hquote, hslash, hn, hr, ht, hb, hf⟩ := hshort
  simp only [escapedChar, if_neg hquote, if_neg hslash, if_neg hn, if_neg hr, if_neg ht, if_neg hb,
    if_neg hf, Bool.false_and, Bool.false_eq_true, if_false]
  split
  · next hcontrol =>
    obtain ⟨p, q, r, s, hdigits, hunit⟩ := exists_hexadecimal_eq hcontrol
    rw [unitEscape, hdigits]
    simp only [List.cons_append, List.nil_append, textUnits, hunit]
  · next hcontrol =>
    rw [List.singleton_append, textUnits, if_neg (by simp [hcontrol, hslash])]
    all_goals simp [hquote, hslash]

/-- **A text that is written is read back**, whatever follows it. -/
theorem textBody_escaped (s : String) (rest : List Char) :
    textBody (s.toList.flatMap (escapedChar false) ++ '"' :: rest) = .ok (s, rest) := by
  have hunits : ∀ cs : List Char,
      textUnits (cs.flatMap (escapedChar false) ++ '"' :: rest) =
        .ok (cs.map Char.toNat, rest) := by
    intro cs
    induction cs with
    | nil => rfl
    | cons c cs ih =>
        rw [List.flatMap_cons, List.append_assoc, textUnits_escapedChar, ih]
        rfl
  rw [textBody, hunits, Except.map, joined_of_forall_isValidChar, String.ofList_toList]

/-! ### Texts that tell their ends -/

variable {β : Type} {R : β → β → Prop}

/-- Encodings that **tell their ends**: where two texts that begin with encodings are equal,
what was encoded is related and what is left is equal. -/
def TellsApart (R : β → β → Prop) (f : β → String) : Prop :=
  ∀ ⦃x y : β⦄ ⦃r s : List Char⦄, (f x).toList ++ r = (f y).toList ++ s → R x y ∧ r = s

/-- Equal encodings are encodings of related things. -/
theorem TellsApart.related {f : β → String} (hf : TellsApart R f) {x y : β} (h : f x = f y) :
    R x y :=
  (hf (x := x) (y := y) (r := []) (s := []) (by rw [h])).1

/-- **Texts** between quotation marks tell their ends. -/
theorem tellsApart_escaped : TellsApart Eq (escaped false) := by
  intro x y r s h
  have hbody : x.toList.flatMap (escapedChar false) ++ '"' :: r =
      y.toList.flatMap (escapedChar false) ++ '"' :: s := by
    simpa [escaped] using h
  have hread := congrArg textBody hbody
  rw [textBody_escaped, textBody_escaped] at hread
  exact Prod.mk.inj (Except.ok.inj hread)

/-! ### Lists -/

/-- What follows the first item of several ones that are written on one line. -/
def tailText (f : β → String) (xs : List β) : List Char :=
  xs.flatMap fun x => ',' :: ' ' :: (f x).toList

/-- Parts with a separator between them: the first one, and each other one after
a separator. -/
theorem intercalate_cons_eq {γ : Type} (sep cs : List γ) (css : List (List γ)) :
    sep.intercalate (cs :: css) = cs ++ css.flatMap fun ds => sep ++ ds := by
  induction css generalizing cs with
  | nil => simp
  | cons ds css ih => rw [List.intercalate_cons_cons, ih, List.flatMap_cons, List.append_assoc,
      List.append_assoc]

/-- Items between brackets on one line. -/
theorem toList_enclose_cons (f : β → String) (depth : ℕ) (opening closing : String) (x : β)
    (xs : List β) :
    (Layout.fingerprint.enclose depth opening closing ((x :: xs).map f)).toList =
      opening.toList ++ ((f x).toList ++ (tailText f xs ++ closing.toList)) := by
  have hjoin : (Text.join ", " ((x :: xs).map f)).toList = (f x).toList ++ tailText f xs := by
    rw [Text.join, String.toList_intercalate, List.map_cons, List.map_cons, intercalate_cons_eq,
      List.map_map, List.flatMap_map]
    rfl
  have hlayout : Layout.fingerprint.enclose depth opening closing ((x :: xs).map f) =
      opening ++ "" ++ Text.join ", " ((x :: xs).map f) ++ "" ++ closing := rfl
  rw [hlayout, String.append_empty, String.append_empty, String.toList_append,
    String.toList_append, hjoin, List.append_assoc, List.append_assoc]

/-- An empty list is written as two brackets. -/
theorem toList_enclose_nil (f : β → String) (depth : ℕ) :
    (Layout.fingerprint.enclose depth "[" "]" (([] : List β).map f)).toList = ['[', ']'] := by
  simp [Layout.enclose]

/-- What follows an item tells the end of the list, and the items one by one. Induction on the
items. -/
theorem forall₂_of_tailText {f : β → String} (hf : TellsApart R f) {xs ys : List β}
    {r s : List Char}
    (h : tailText f xs ++ ']' :: r = tailText f ys ++ ']' :: s) : List.Forall₂ R xs ys ∧ r = s := by
  induction xs generalizing ys with
  | nil =>
      cases ys with
      | nil => exact ⟨.nil, by simpa [tailText] using h⟩
      | cons y ys => simp [tailText] at h
  | cons x xs ih =>
      cases ys with
      | nil => simp [tailText] at h
      | cons y ys =>
          have hitems : (f x).toList ++ (tailText f xs ++ ']' :: r) =
              (f y).toList ++ (tailText f ys ++ ']' :: s) := by
            simpa [tailText] using h
          obtain ⟨hxy, hrest⟩ := hf hitems
          obtain ⟨hxs, hrs⟩ := ih hrest
          exact ⟨.cons hxy hxs, hrs⟩

/-- **Lists** of what tells its end tell their ends, when no item begins as the closing bracket
does. -/
theorem tellsApart_enclose {f : β → String} (hf : TellsApart R f)
    (hfirst : ∀ x, ∃ c cs, (f x).toList = c :: cs ∧ c ≠ ']') (depth : ℕ) :
    TellsApart (List.Forall₂ R) fun xs => Layout.fingerprint.enclose depth "[" "]" (xs.map f) := by
  have hbrackets : "[".toList = ['['] ∧ "]".toList = [']'] := ⟨rfl, rfl⟩
  intro xs ys r s h
  beta_reduce at h
  cases xs with
  | nil =>
      cases ys with
      | nil => exact ⟨.nil, List.append_cancel_left h⟩
      | cons y ys =>
          obtain ⟨c, cs, hy, hne⟩ := hfirst y
          rw [toList_enclose_nil, toList_enclose_cons, hbrackets.1, hy] at h
          exact absurd (List.cons.inj (List.cons.inj h).2).1.symm hne
  | cons x xs =>
      cases ys with
      | nil =>
          obtain ⟨c, cs, hx, hne⟩ := hfirst x
          rw [toList_enclose_cons, toList_enclose_nil, hbrackets.1, hx] at h
          exact absurd (List.cons.inj (List.cons.inj h).2).1 hne
      | cons y ys =>
          have hitems : (f x).toList ++ (tailText f xs ++ ']' :: r) =
              (f y).toList ++ (tailText f ys ++ ']' :: s) := by
            rw [toList_enclose_cons, toList_enclose_cons, hbrackets.1, hbrackets.2] at h
            simpa using h
          obtain ⟨hxy, hrest⟩ := hf hitems
          obtain ⟨hxs, hrs⟩ := forall₂_of_tailText hf hrest
          exact ⟨.cons hxy hxs, hrs⟩

end Linkage.Json
