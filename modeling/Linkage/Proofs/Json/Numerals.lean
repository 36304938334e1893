import Mathlib
import Linkage.Number.Shortest
import Linkage.Proofs.Json.Grammar
import Linkage.Proofs.Number.Magnitude

/-!
# Numbers as they are written

A number in a document is written from its decimal digits, of which the first is not zero.
Whole numbers and finite floating point numbers are written as numbers of the grammar, with and
without an exponent. Undefined and unbounded numbers are written as words that the grammar does
not have.

## Main results

* `isMagnitude_decimalText`: decimal numbers.
* `derives_intText`, `derives_floatText`: whole numbers and floating point numbers in
  documents.
-/

namespace Linkage.Json

/-! ### Digits -/

/-- A natural number is written in digits. -/
theorem isDigits_toDigits (n : ℕ) : IsDigits (Nat.toDigits 10 n) :=
  ⟨Nat.toDigits_ne_nil, fun _ hc => Nat.isDigit_of_mem_toDigits (by decide) (by decide) hc⟩

/-- A row of zeros has only digits. -/
theorem isDigit_of_mem_zeros {k : ℕ} {c : Char} (h : c ∈ zeros k) : c.isDigit = true := by
  rw [List.eq_of_mem_replicate h]
  rfl

/-- Digits after zeros are digits. -/
theorem IsDigits.zeros_append {cs : List Char} (h : IsDigits cs) (k : ℕ) :
    IsDigits (zeros k ++ cs) := by
  refine ⟨List.append_ne_nil_of_right_ne_nil _ h.1, fun c hc => ?_⟩
  rcases List.mem_append.mp hc with hc | hc
  · exact isDigit_of_mem_zeros hc
  · exact h.2 c hc

/-- Zeros after digits are digits. -/
theorem IsDigits.append_zeros {cs : List Char} (h : IsDigits cs) (k : ℕ) :
    IsDigits (cs ++ zeros k) := by
  refine ⟨List.append_ne_nil_of_left_ne_nil h.1 _, fun c hc => ?_⟩
  rcases List.mem_append.mp hc with hc | hc
  · exact h.2 c hc
  · exact isDigit_of_mem_zeros hc

/-- The first digit of a number other than zero is not zero. Induction on the number, from the
last digit to the first. -/
theorem exists_toDigits_eq_cons {n : ℕ} (hn : n ≠ 0) :
    ∃ c cs, Nat.toDigits 10 n = c :: cs ∧ c ≠ '0' := by
  induction n using Nat.strong_induction_on with
  | _ n ih =>
    rw [Nat.toDigits_eq_if (by decide)]
    split
    · exact ⟨_, [], rfl, mt Nat.digitChar_eq_zero.mp hn⟩
    · obtain ⟨c, cs, hcons, hc⟩ := ih (n / 10) (by omega) (by omega)
      exact ⟨c, cs ++ [(n % 10).digitChar], by rw [hcons, List.cons_append], hc⟩

/-- A natural number is written without a leading zero. -/
theorem isWhole_toDigits (n : ℕ) : IsWhole (Nat.toDigits 10 n) := by
  by_cases hn : n = 0
  · subst hn
    exact .zero
  · obtain ⟨c, cs, hcons, hc⟩ := exists_toDigits_eq_cons hn
    have hdigits := isDigits_toDigits n
    rw [hcons] at hdigits ⊢
    exact .digits hc hdigits

/-! ### Decimal numbers -/

/-- A point and a zero are a fraction. -/
theorem isFraction_zero : IsFraction ['.', '0'] := .point ⟨by simp, by simp⟩

section Decimals

variable {c : Char} {cs : List Char} (hc : c ≠ '0') (h : IsDigits (c :: cs))

include hc h

/-- **A decimal number without an exponent.** The point stands before the digits, behind them
or between them. -/
theorem isMagnitude_plainText (point : ℤ) : IsMagnitude (plainText (c :: cs) point) := by
  unfold plainText
  split
  · simpa using IsMagnitude.parts .zero (.point (h.zeros_append _)) .nil
  · split
    · have hwhole : IsWhole (c :: (cs ++ zeros (point.toNat - (c :: cs).length))) :=
        .digits hc (h.append_zeros _)
      simpa using IsMagnitude.parts hwhole isFraction_zero .nil
    · next hpos hlong =>
      obtain ⟨k, hk⟩ : ∃ k, point.toNat = k + 1 := ⟨point.toNat - 1, by omega⟩
      have hdrop : (c :: cs).drop point.toNat ≠ [] := by
        rw [Ne, List.drop_eq_nil_iff]
        omega
      have hpoint : IsFraction ('.' :: (c :: cs).drop point.toNat) :=
        .point ⟨hdrop, fun d hd => h.2 d (List.mem_of_mem_drop hd)⟩
      have hwhole : IsWhole ((c :: cs).take point.toNat) := by
        rw [hk, List.take_succ_cons]
        refine .digits hc ⟨List.cons_ne_nil _ _, fun d hd => h.2 d ?_⟩
        rw [← List.take_succ_cons] at hd
        exact List.mem_of_mem_take hd
      simpa using IsMagnitude.parts hwhole hpoint .nil

/-- **A decimal number with an exponent** and one digit before the point. -/
theorem isMagnitude_exponentialText (point : ℤ) :
    IsMagnitude (exponentialText (c :: cs) point) := by
  have hexponent : IsExponent ('e' :: exponentText (point - 1)) := by
    refine .signed (by simp) ?_ ((isDigits_toDigits _).zeros_append _)
    split <;> simp
  have hwhole : IsWhole [c] := .digits hc ⟨by simp, by simpa using h.2 c List.mem_cons_self⟩
  cases cs with
  | nil => exact .parts hwhole .nil hexponent
  | cons d rest =>
      have hpoint : IsFraction ('.' :: d :: rest) :=
        .point ⟨by simp, fun x hx => h.2 x (List.mem_cons_of_mem c hx)⟩
      simpa [exponentialText] using IsMagnitude.parts hwhole hpoint hexponent

end Decimals

/-- **Decimal numbers** are written as numbers of the grammar. -/
theorem isMagnitude_decimalText (isPlain : Bool) (d : DecimalNumber) :
    IsMagnitude (decimalText isPlain d) := by
  unfold decimalText
  split
  · exact .parts .zero isFraction_zero .nil
  · next hd =>
    obtain ⟨c, cs, hcons, hc⟩ := exists_toDigits_eq_cons hd
    have hdigits := isDigits_toDigits d.digits
    rw [hcons] at hdigits ⊢
    split
    · exact isMagnitude_plainText hc hdigits _
    · exact isMagnitude_exponentialText hc hdigits _

/-! ### Numbers of documents -/

/-- **A whole number** is written as a number. -/
theorem derives_intText (n : ℤ) : Derives .value true (toString n).toList := by
  have hmagnitude : ∀ m : ℕ, IsMagnitude (toString m).toList := fun m => by
    rw [Nat.toString_eq_ofList_toDigits, String.toList_ofList]
    simpa using IsMagnitude.parts (isWhole_toDigits m) .nil .nil
  refine .number ?_
  cases n with
  | ofNat m => exact .unsigned (hmagnitude m)
  | negSucc m =>
      have htext : (toString (Int.negSucc m)).toList = '-' :: (toString (m + 1)).toList := by
        simp [Int.toString_eq_repr, Int.repr]
      rw [htext]
      exact .negative (hmagnitude (m + 1))

/-- A finite floating point number is written as a number. -/
theorem isNumber_floatText {x : Float} (h : x.isFinite = true) :
    IsNumber (NumberSpelling.document.text x).toList := by
  obtain ⟨negative, m, q, hparts⟩ := exists_parts_of_isFinite h
  have hmagnitude := isMagnitude_decimalText
    (NumberSpelling.document.isPlain (Shortest.decimal .double m q)) (Shortest.decimal .double m q)
  rw [NumberSpelling.text, hparts]
  cases negative with
  | true => simpa [signed] using IsNumber.negative hmagnitude
  | false => simpa [signed] using IsNumber.unsigned hmagnitude

/-- Another floating point number is written as a word. -/
theorem floatText_mem_of_isFinite_eq_false {x : Float} (h : x.isFinite = false) :
    NumberSpelling.document.text x ∈ ["NaN", "Infinity", "-Infinity"] := by
  rw [NumberSpelling.text]
  rcases parts_of_isFinite_eq_false h with hparts | ⟨negative, hparts⟩ <;> rw [hparts]
  · decide
  · cases negative <;> decide

/-- **A floating point number** is written as a number when it is finite, and else as a word
for an undefined or an unbounded number. -/
theorem derives_floatText (x : Float) :
    Derives .value x.isFinite (NumberSpelling.document.text x).toList := by
  cases hfinite : x.isFinite with
  | true => exact .number (isNumber_floatText hfinite)
  | false => exact .special (floatText_mem_of_isFinite_eq_false hfinite)

/-- There is no comma in the text of a floating point number. -/
theorem comma_not_mem_floatText (x : Float) : ',' ∉ (NumberSpelling.document.text x).toList := by
  cases hfinite : x.isFinite with
  | true =>
      intro hcomma
      have hne := (isNumber_floatText hfinite).forall_mem (p := fun c => c ≠ ',')
        (fun c hc => by rintro rfl; cases hc) (by simp)
      exact hne _ hcomma rfl
  | false =>
      have hword := floatText_mem_of_isFinite_eq_false hfinite
      generalize NumberSpelling.document.text x = w at hword
      revert w
      decide

end Linkage.Json
