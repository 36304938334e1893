/-!
# Dotted names

A method is identified by the name of its class, a dot, and its own name; a class by the name
of its package, a dot, and its short name. Every reading of such a name cuts it at its last
dot.

The empty package name stands for the default package. A name has no owner when nothing stands
before its last dot.

## Main results

* `cutLast_eq_none_iff`: a name is left whole exactly when it has no dot.
* `eq_append_of_cutLast`: the two parts around the last dot give back the name.
* `not_mem_of_cutLast`: the part after the last dot has no dot.
* `cutLast_append`: a text is cut at the dot that no other dot follows.
-/

namespace Linkage

/-- The name of the default package. -/
def defaultPackage : String := ""

/-- The characters before and after the last dot, if there is a dot. -/
def cutLast : List Char → Option (List Char × List Char)
  | [] => none
  | c :: rest =>
    match cutLast rest with
    | some (before, after) => some (c :: before, after)
    | none => if c = '.' then some ([], rest) else none

/-- The package of a class: `none` for no name, for the empty name and for a name whose only
dot is its first character. -/
def packageOf (name : Option String) : Option String :=
  match name with
  | none => none
  | some s =>
    if s.isEmpty then none
    else
      match cutLast s.toList with
      | none => some defaultPackage
      | some ([], _) => none
      | some (before, _) => some (String.ofList before)

/-- The name of a class without its package. -/
def shortName (name : String) : String :=
  match cutLast name.toList with
  | none => name
  | some (_, after) => String.ofList after

/-- The class part of an identifier: what stands before its last dot, if anything does. -/
def ownerOf (identifier : Option String) : Option String :=
  match identifier with
  | none => none
  | some s =>
    match cutLast s.toList with
    | none => none
    | some ([], _) => none
    | some (before, _) => some (String.ofList before)

/-- Whether a name has a dot. -/
def isDotted (name : String) : Bool := name.toList.contains '.'

/-- A text cannot be cut when it has no dot. -/
theorem cutLast_eq_none_iff (cs : List Char) : cutLast cs = none ↔ '.' ∉ cs := by
  induction cs with
  | nil => simp [cutLast]
  | cons c rest ih =>
    cases h : cutLast rest with
    | none =>
      have hr := ih.1 h
      by_cases hc : c = '.'
      · simp [cutLast, h, hc]
      · have hc' : ¬ '.' = c := fun e => hc e.symm
        simp [cutLast, h, hc, hc', hr]
    | some p =>
      have hr : '.' ∈ rest := by
        by_cases hm : '.' ∈ rest
        · exact hm
        · rw [ih.2 hm] at h; cases h
      simp [cutLast, h, hr]

/-- The two parts of a text with a dot between them are the text. -/
theorem eq_append_of_cutLast {cs before after : List Char}
    (h : cutLast cs = some (before, after)) : cs = before ++ '.' :: after := by
  induction cs generalizing before with
  | nil => simp [cutLast] at h
  | cons c rest ih =>
    cases hr : cutLast rest with
    | none =>
      by_cases hc : c = '.'
      · simp [cutLast, hr, hc] at h
        obtain ⟨rfl, rfl⟩ := h
        simp [hc]
      · simp [cutLast, hr, hc] at h
    | some p =>
      obtain ⟨b, a⟩ := p
      simp [cutLast, hr] at h
      obtain ⟨rfl, rfl⟩ := h
      rw [ih hr]; rfl

/-- The part after the last dot has no dot. -/
theorem not_mem_of_cutLast {cs before after : List Char}
    (h : cutLast cs = some (before, after)) : '.' ∉ after := by
  induction cs generalizing before with
  | nil => simp [cutLast] at h
  | cons c rest ih =>
    cases hr : cutLast rest with
    | none =>
      by_cases hc : c = '.'
      · simp [cutLast, hr, hc] at h
        obtain ⟨rfl, rfl⟩ := h
        exact (cutLast_eq_none_iff _).1 hr
      · simp [cutLast, hr, hc] at h
    | some p =>
      obtain ⟨b, a⟩ := p
      simp [cutLast, hr] at h
      obtain ⟨rfl, rfl⟩ := h
      exact ih hr

/-- A text is cut at the dot that no other dot follows. -/
theorem cutLast_append (before : List Char) {after : List Char} (h : '.' ∉ after) :
    cutLast (before ++ '.' :: after) = some (before, after) := by
  induction before with
  | nil => simp [cutLast, (cutLast_eq_none_iff after).mpr h]
  | cons c before ih => simp [cutLast, ih]

end Linkage
