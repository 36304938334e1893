import Mathlib
import Linkage.Coupling.CallCount
import Linkage.Proofs.CallGraph.SameCalls

/-!
# Which class an identifier belongs to

A resolver knows the classes that declare callers by their short names, ignoring letter case.
Callers are entered in increasing order and the first class of a short name stays, so what is
found at a short name is the class of the least caller with a class of that name: its *first
namesake*.

Callers are resolved like other identifiers. The class of a caller is its class part when that
has a package. When it has none, it is the class of the first namesake, which may be a class of
another package, or one whose name differs in letter case; then callers declared in different
classes belong to one class.

## Main results

* `ClassResolver.get?_qualified`: what a resolver finds at a short name.
* `ClassResolver.resolve_of_not_dotted`: the class of an identifier whose class part has no
  package.
* `CallGraph.FirstNamesake.unique`: namesakes have the same first namesake.
* `resolve_caller`: the class of a caller, when it is its class part, and which callers share
  one.
* `resolve_caller_ne_of_letter_case`: a caller that does not belong to the class that declares
  it.
-/

namespace Linkage

/-! ### Classes that declare callers -/

/-- Two classes are **namesakes** when their short names are the same, ignoring letter case. -/
def Namesakes (k k' : String) : Prop :=
  Text.lowercase (shortName k) = Text.lowercase (shortName k')

instance (k k' : String) : Decidable (Namesakes k k') := inferInstanceAs (Decidable (_ = _))

theorem Namesakes.refl (k : String) : Namesakes k k := rfl

/-- Namesakes are namesakes both ways. -/
theorem Namesakes.symm {k k' : String} (h : Namesakes k k') : Namesakes k' k := Eq.symm h

/-- Namesakes of one class are namesakes. -/
theorem Namesakes.trans {k k' k'' : String} (h : Namesakes k k') (h' : Namesakes k' k'') :
    Namesakes k k'' := Eq.trans h h'

/-- A class without a package is its own short name. -/
theorem shortName_of_not_dotted {k : String} (h : isDotted k = false) : shortName k = k := by
  have hdot : '.' ∉ k.toList := by simpa [isDotted] using h
  rw [shortName, (cutLast_eq_none_iff k.toList).mpr hdot]

namespace CallGraph

variable {g : CallGraph} {k k' m m₀ k₀ : String}

/-- The classes that declare callers, by increasing caller. -/
def declaringClasses (g : CallGraph) : List String := g.callers.filterMap fun m => ownerOf (some m)

/-- The **first namesake** of a class: the least caller whose class is a namesake of it, with
that class. -/
structure FirstNamesake (g : CallGraph) (k m₀ k₀ : String) : Prop where
  /-- It is a caller. -/
  mem_keys : m₀ ∈ g.keys
  /-- The caller is declared in the class. -/
  owner : ownerOf (some m₀) = some k₀
  /-- The class is a namesake. -/
  namesakes : Namesakes k k₀
  /-- No lesser caller is declared in a namesake. -/
  least : ∀ m ∈ g.keys, ∀ k', ownerOf (some m) = some k' → Namesakes k k' → m₀ ≤ m

/-- Whether a caller is declared in a namesake of a class. -/
def declaresNamesake (k m : String) : Bool :=
  (ownerOf (some m)).any fun k' => decide (Namesakes k k')

/-- A method declares a namesake when the class that owns it is one. -/
theorem declaresNamesake_iff :
    declaresNamesake k m = true ↔ ∃ k', ownerOf (some m) = some k' ∧ Namesakes k k' := by
  rw [declaresNamesake, Option.any_eq_true]
  simp

/-- Of the classes that declare callers, the first that is a namesake is the one of the first
namesake. -/
theorem find?_declaringClasses_eq_some_iff :
    g.declaringClasses.find? (fun k' => decide (Namesakes k k')) = some k₀ ↔
      ∃ m₀, g.FirstNamesake k m₀ k₀ := by
  have hfirst : g.declaringClasses.find? (fun k' => decide (Namesakes k k')) =
      (g.callers.find? (declaresNamesake k)).bind fun m => ownerOf (some m) :=
    List.find?_filterMap
  rw [hfirst, Option.bind_eq_some_iff]
  refine exists_congr fun m₀ => ?_
  rw [callers, Text.find?_sorted_eq_some_iff]
  constructor
  · rintro ⟨⟨hmem, hdeclares, hleast⟩, howner⟩
    obtain ⟨k', hk', hname⟩ := declaresNamesake_iff.mp hdeclares
    obtain rfl : k' = k₀ := Option.some.inj (hk'.symm.trans howner)
    exact ⟨hmem, howner, hname, fun m hm k'' hk'' hname' =>
      hleast m hm (declaresNamesake_iff.mpr ⟨k'', hk'', hname'⟩)⟩
  · rintro ⟨hmem, howner, hname, hleast⟩
    refine ⟨⟨hmem, declaresNamesake_iff.mpr ⟨k₀, howner, hname⟩, fun m hm hdeclares => ?_⟩, howner⟩
    obtain ⟨k', hk', hname'⟩ := declaresNamesake_iff.mp hdeclares
    exact hleast m hm k' hk' hname'

/-- Namesakes have the same first namesake. -/
theorem FirstNamesake.unique {m₁ k₁ : String} (h : g.FirstNamesake k m₀ k₀)
    (h' : g.FirstNamesake k' m₁ k₁) (hname : Namesakes k k') : m₀ = m₁ ∧ k₀ = k₁ := by
  have hle : m₀ ≤ m₁ := h.least m₁ h'.mem_keys k₁ h'.owner (hname.trans h'.namesakes)
  have hge : m₁ ≤ m₀ := h'.least m₀ h.mem_keys k₀ h.owner (hname.symm.trans h.namesakes)
  obtain rfl := le_antisymm hle hge
  exact ⟨rfl, Option.some.inj (h.owner.symm.trans h'.owner)⟩

/-- The class of a caller has a first namesake. -/
theorem exists_firstNamesake (hm : m ∈ g.keys) (hk : ownerOf (some m) = some k) :
    ∃ m₀ k₀, g.FirstNamesake k m₀ k₀ ∧ m₀ ≤ m := by
  have hmem : k ∈ g.declaringClasses := List.mem_filterMap.mpr ⟨m, mem_callers.mpr hm, hk⟩
  have hsome : (g.declaringClasses.find? fun k' => decide (Namesakes k k')).isSome := by
    rw [List.find?_isSome]
    exact ⟨k, hmem, by simp [Namesakes.refl]⟩
  obtain ⟨k₀, hfind⟩ := Option.isSome_iff_exists.mp hsome
  obtain ⟨m₀, hfirst⟩ := find?_declaringClasses_eq_some_iff.mp hfind
  exact ⟨m₀, k₀, hfirst, hfirst.least m hm k hk (.refl k)⟩

end CallGraph

/-! ### Resolving -/

namespace ClassResolver

open CallGraph

variable {g : CallGraph} {k : String} {identifier : Option String}

/-- Entering callers in turn, where the first class of a short name stays, leaves at a short
name what was there, or else the first class of that name that declares one of the callers. -/
theorem get?_foldl {enter : OrderedMap String String → String → OrderedMap String String}
    (hnone : ∀ m caller, ownerOf (some caller) = none → enter m caller = m)
    (hsome : ∀ m caller owner, ownerOf (some caller) = some owner →
      enter m caller = m.insertNew (Text.lowercase (shortName owner)) owner)
    (k : String) (callers : List String) (m : OrderedMap String String) :
    (callers.foldl enter m).get? (Text.lowercase (shortName k)) =
      (m.get? (Text.lowercase (shortName k))).or
        ((callers.filterMap fun m => ownerOf (some m)).find? fun k' =>
          decide (Namesakes k k')) := by
  induction callers generalizing m with
  | nil => simp
  | cons caller rest ih =>
      rw [List.foldl_cons, ih]
      cases howner : ownerOf (some caller) with
      | none => simp [hnone m caller howner, howner]
      | some owner =>
          rw [hsome m caller owner howner, List.filterMap_cons, howner, List.find?_cons,
            OrderedMap.get?_insertNew]
          by_cases hname : Namesakes k owner
          · have hkey : Text.lowercase (shortName owner) = Text.lowercase (shortName k) :=
              hname.symm
            simp [hname, hkey]
          · have hkey : Text.lowercase (shortName owner) ≠ Text.lowercase (shortName k) :=
              fun h => hname h.symm
            simp [hname, hkey]

/-- A resolver finds at a short name the first class of that name that declares a caller. -/
theorem get?_qualified (g : CallGraph) (k : String) :
    (ofGraph g).qualified.get? (Text.lowercase (shortName k)) =
      g.declaringClasses.find? fun k' => decide (Namesakes k k') := by
  refine get?_foldl (fun m caller h => ?_) (fun m caller owner h => ?_) k g.callers OrderedMap.empty
  · simp only [h]
  · simp only [h]

/-- An identifier whose class part has a package belongs to its class part. -/
theorem resolve_of_dotted (r : ClassResolver) (hk : ownerOf identifier = some k)
    (hdotted : isDotted k = true) : r.resolve identifier = some k := by
  rw [resolve, hk, Option.map_some, if_pos hdotted]

/-- An identifier whose class part has no package belongs to the first namesake of its class
part among the classes that declare callers, or to its class part when there is none. -/
theorem resolve_of_not_dotted (g : CallGraph) (hk : ownerOf identifier = some k)
    (hdotted : isDotted k = false) :
    (ofGraph g).resolve identifier =
      some ((g.declaringClasses.find? fun k' => decide (Namesakes k k')).getD k) := by
  have hfound := get?_qualified g k
  rw [shortName_of_not_dotted hdotted] at hfound
  rw [resolve, hk, Option.map_some, hdotted, OrderedMap.getD, hfound]
  rfl

/-- An identifier belongs to its class part when that has a package, and else to the first
namesake of its class part. -/
theorem resolve_of_firstNamesake {m₀ k₀ : String} (h : g.FirstNamesake k m₀ k₀)
    (hk : ownerOf identifier = some k) :
    (ofGraph g).resolve identifier = some (if isDotted k then k else k₀) := by
  cases hdotted : isDotted k with
  | true => exact resolve_of_dotted _ hk hdotted
  | false =>
      rw [resolve_of_not_dotted g hk hdotted, find?_declaringClasses_eq_some_iff.mpr ⟨m₀, h⟩]
      rfl

end ClassResolver

/-! ### Callers -/

section

open CallGraph ClassResolver

variable {g : CallGraph} {k k' m m₀ k₀ m₁ k₁ : String}

/-- Different classes resolve to one class exactly when they have one first namesake, and each
of them that has a package is that namesake. -/
theorem resolved_eq_iff (h : g.FirstNamesake k m₀ k₀) (h' : g.FirstNamesake k' m₁ k₁)
    (hne : k ≠ k') :
    (if isDotted k then k else k₀) = (if isDotted k' then k' else k₁) ↔
      k₀ = k₁ ∧ (isDotted k = true → k₀ = k) ∧ (isDotted k' = true → k₀ = k') := by
  -- the first namesake is shared as soon as there is a namesake of both
  have hshared : ∀ c, Namesakes k c → Namesakes k' c → k₀ = k₁ := fun c hc hc' =>
    (h.unique h' (hc.trans hc'.symm)).2
  cases hk : isDotted k <;> cases hk' : isDotted k' <;>
    simp only [if_true, if_false, Bool.false_eq_true, false_implies, true_implies, and_true,
      true_and]
  case false.true =>
    refine ⟨?_, And.right⟩
    rintro rfl
    exact ⟨hshared k₀ h.namesakes (.refl k₀), rfl⟩
  case true.false =>
    refine ⟨?_, fun ⟨hfirst, hown⟩ => hown.symm.trans hfirst⟩
    rintro rfl
    have hfirst : k₀ = k := hshared k (.refl k) h'.namesakes
    exact ⟨hfirst, hfirst⟩
  case true.true =>
    exact ⟨fun heq => absurd heq hne, fun ⟨_, hown, hown'⟩ => hown.symm.trans hown'⟩

/-- **The class of a caller** is its class part when that has a package, and else the first
namesake of its class part, among the callers up to it. So a caller belongs to its class part
exactly when that has a package or is its own first namesake; and callers declared in different
classes belong to one class exactly when these have one first namesake, and each of them that
has a package is that namesake. -/
theorem resolve_caller (hm : m ∈ g.keys) (hk : ownerOf (some m) = some k) :
    (isDotted k = true → (ofGraph g).resolve (some m) = some k) ∧
    (isDotted k = false → ∃ m₀ k₀, g.FirstNamesake k m₀ k₀ ∧ m₀ ≤ m ∧
      (ofGraph g).resolve (some m) = some k₀) ∧
    ((ofGraph g).resolve (some m) = some k ↔ isDotted k = true ∨ ∃ m₀, g.FirstNamesake k m₀ k) ∧
    ∀ m' ∈ g.keys, ∀ k', ownerOf (some m') = some k' → k ≠ k' →
      ((ofGraph g).resolve (some m) = (ofGraph g).resolve (some m') ↔
        ∃ m₀ k₀, g.FirstNamesake k m₀ k₀ ∧ g.FirstNamesake k' m₀ k₀ ∧
          (isDotted k = true → k₀ = k) ∧ (isDotted k' = true → k₀ = k')) := by
  obtain ⟨m₀, k₀, hfirst, hle⟩ := exists_firstNamesake hm hk
  have hclass := resolve_of_firstNamesake hfirst hk
  refine ⟨resolve_of_dotted _ hk, fun hdotted => ?_, ?_, fun m' hm' k' hk' hne => ?_⟩
  · exact ⟨m₀, k₀, hfirst, hle, by simpa [hdotted] using hclass⟩
  · rw [hclass, Option.some.injEq]
    cases hdotted : isDotted k with
    | true => simp
    | false =>
        simp only [if_false, Bool.false_eq_true, false_or]
        constructor
        · rintro rfl
          exact ⟨m₀, hfirst⟩
        · rintro ⟨m₁, hown⟩
          exact (hfirst.unique hown (.refl k)).2
  · obtain ⟨m₁, k₁, hfirst', -⟩ := exists_firstNamesake hm' hk'
    rw [hclass, resolve_of_firstNamesake hfirst' hk', Option.some.injEq,
      resolved_eq_iff hfirst hfirst' hne]
    constructor
    · rintro ⟨rfl, hown, hown'⟩
      have hname : Namesakes k k' := hfirst.namesakes.trans hfirst'.namesakes.symm
      obtain ⟨rfl, -⟩ := hfirst.unique hfirst' hname
      exact ⟨m₀, k₀, hfirst, hfirst', hown, hown'⟩
    · rintro ⟨m₂, k₂, hshared, hshared', hown, hown'⟩
      obtain ⟨rfl, rfl⟩ := hfirst.unique hshared (.refl k)
      obtain ⟨rfl, rfl⟩ := hfirst'.unique hshared' (.refl k')
      exact ⟨rfl, hown, hown'⟩

/-- Of three callers with namesake classes, the two whose class part has no package belong to
the class of the lesser, which the caller with a package does not. -/
theorem resolve_caller_of_three :
    let g : CallGraph := .ofList [("A.f", ["a.g"]), ("a.g", []), ("p.a.h", [])]
    (ofGraph g).resolve (some "a.g") ≠ some "a" ∧
      (ofGraph g).resolve (some "a.g") = (ofGraph g).resolve (some "A.f") ∧
      (ofGraph g).resolve (some "a.g") ≠ (ofGraph g).resolve (some "p.a.h") := by
  intro g
  have hkeys : g.keys = ["A.f", "a.g", "p.a.h"] := by subst g; cbv
  have hnames : Namesakes "a" "A" := by cbv
  have hfirst : g.FirstNamesake "A" "A.f" "A" := by
    refine ⟨by simp [hkeys], by cbv, .refl "A", fun m hm _ _ _ => ?_⟩
    rw [hkeys] at hm
    fin_cases hm <;> decide
  have hfirst' : g.FirstNamesake "a" "A.f" "A" :=
    ⟨hfirst.mem_keys, hfirst.owner, hnames, fun m hm k' hk' hname =>
      hfirst.least m hm k' hk' (hnames.symm.trans hname)⟩
  obtain ⟨-, -, hown, hshared⟩ :=
    resolve_caller (g := g) (m := "a.g") (k := "a") (by simp [hkeys]) (by cbv)
  have hne : "a" ≠ "A" := by decide
  refine ⟨fun h => ?_, ?_, fun h => ?_⟩
  · obtain hdotted | ⟨m₀, hself⟩ := hown.mp h
    · exact absurd hdotted (by decide)
    · exact hne (hself.unique hfirst' (.refl "a")).2
  · exact (hshared "A.f" (by simp [hkeys]) "A" (by cbv) hne).mpr
      ⟨"A.f", "A", hfirst', hfirst, by decide, by decide⟩
  · obtain ⟨m₀, k₀, hfirst₀, -, -, hdotted⟩ :=
      (hshared "p.a.h" (by simp [hkeys]) "p.a" (by cbv) (by decide)).mp h
    have hpackaged : k₀ = "p.a" := hdotted (by cbv)
    have hleast : k₀ = "A" := (hfirst₀.unique hfirst' (.refl "a")).2
    exact absurd (hpackaged.symm.trans hleast) (by decide)

/-- A caller does not belong to the class that declares it when a lesser caller is
declared in a class whose name differs in letter case, and a call between the two classes
is not counted. -/
theorem resolve_caller_ne_of_letter_case :
    let g : CallGraph := .ofList [("A.f", ["a.g"]), ("a.g", [])]
    "a.g" ∈ g.keys ∧ ownerOf (some "a.g") = some "a" ∧
      (ofGraph g).resolve (some "a.g") = some "A" ∧
      (ofGraph g).resolve (some "A.f") = some "A" ∧
      (countCalls g).entries = [] := by
  intro g
  have hkeys : g.keys = ["A.f", "a.g"] := by subst g; cbv
  refine ⟨by simp [hkeys], ?_, ?_, ?_, ?_⟩ <;> subst g <;> cbv

end

end Linkage
