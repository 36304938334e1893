import Mathlib
import Linkage.Proofs.CallGraph.ProjectBoundary

/-!
# Packages by their segments

The dots of a package name cut it into segments. Two packages are *related* when the segments
of one are the first segments of the other. Whether a class belongs to a project is read off
texts, by looking for the name of one package and a dot at the beginning of the other. Both
come to the same for all names, also for those with empty segments, since a text that begins
with a name and a dot is cut at that dot.

## Main results

* `splitOn_prefix_splitOn_iff`: the pieces of a list are the first pieces of another when this
  is the same list or goes on with a separator.
* `related_append_iff`: related packages that share a beginning part at a dot.
* `related_default_iff`: what is related to the default package.
* `ProjectPackages.contains_iff_related`: the classes that belong to a project.
-/

namespace Linkage

/-! ### Cutting at a separator -/

section

variable {β : Type} [DecidableEq β]

omit [DecidableEq β] in
/-- Joining two lists of pieces that are not empty puts a separator between them. -/
theorem intercalate_append_of_ne_nil {separator : List β} {xs ys : List (List β)} (hx : xs ≠ [])
    (hy : ys ≠ []) : separator.intercalate (xs ++ ys) =
      separator.intercalate xs ++ separator ++ separator.intercalate ys := by
  induction xs with
  | nil => exact absurd rfl hx
  | cons x rest ih =>
      cases rest with
      | nil => rw [List.singleton_append, List.intercalate_cons_of_ne_nil hy,
            List.intercalate_singleton]
      | cons x' rest =>
          rw [List.cons_append, List.intercalate_cons_of_ne_nil (by simp), ih (by simp),
            List.intercalate_cons_cons]
          simp only [List.append_assoc]

/-- The pieces of a list are the first pieces of another one exactly when the two are the same
or the other one goes on with a separator. -/
theorem splitOn_prefix_splitOn_iff {c : β} {xs ys : List β} :
    xs.splitOn c <+: ys.splitOn c ↔ xs = ys ∨ xs ++ [c] <+: ys := by
  constructor
  · rintro ⟨pieces, hpieces⟩
    have hjoined := congrArg [c].intercalate hpieces
    rw [List.intercalate_splitOn] at hjoined
    cases pieces with
    | nil => exact .inl (by rw [← hjoined, List.append_nil, List.intercalate_splitOn])
    | cons piece rest =>
        rw [intercalate_append_of_ne_nil (List.splitOn_ne_nil c xs) (List.cons_ne_nil piece rest),
          List.intercalate_splitOn] at hjoined
        exact .inr ⟨_, hjoined⟩
  · rintro (rfl | ⟨rest, rfl⟩)
    · exact List.prefix_rfl
    · rw [List.append_assoc, List.singleton_append, List.splitOn_append_cons_self]
      exact List.prefix_append _ _

end

/-! ### Related packages -/

/-- The **segments** of a name: what stands between its dots. -/
def segments (name : String) : List String := (name.toList.splitOn '.').map String.ofList

/-- Two packages are **related** when the segments of one are the first segments of
the other. -/
def Related (p q : String) : Prop := segments p <+: segments q ∨ segments q <+: segments p

instance (p q : String) : Decidable (Related p q) :=
  inferInstanceAs (Decidable (segments p <+: segments q ∨ segments q <+: segments p))

/-- Packages are related both ways. -/
theorem related_comm {p q : String} : Related p q ↔ Related q p := or_comm

/-- A package lies at the first segments of another exactly when the two are the same or the
text of the other one starts with it and a dot. -/
theorem segments_prefix_iff {outer inner : String} :
    segments outer <+: segments inner ↔
      outer = inner ∨ ProjectPackages.isNested outer inner = true := by
  have hinjective : Function.Injective String.ofList := fun _ _ => String.ofList_injective
  rw [segments, segments, List.prefix_map_iff_of_injective hinjective, splitOn_prefix_splitOn_iff,
    String.toList_inj, ProjectPackages.isNested, List.isPrefixOf_iff_prefix]

/-- What a package is related to: itself, the packages nested in it and those in which it is
nested. -/
theorem related_iff {p q : String} :
    Related p q ↔ p = q ∨ ProjectPackages.isNested q p = true ∨
      ProjectPackages.isNested p q = true := by
  rw [Related, segments_prefix_iff, segments_prefix_iff, @eq_comm _ q p]
  tauto

/-- The default package is related to itself and to the packages whose name starts with
a dot. -/
theorem related_default_iff {q : String} :
    Related defaultPackage q ↔ q = defaultPackage ∨ DotLeading q := by
  rw [related_iff, ProjectPackages.not_isNested_default, ProjectPackages.isNested_default_iff,
    @eq_comm _ defaultPackage q]
  simp

/-- A text that both names begin with decides nothing. -/
theorem related_append_left_iff {shared p q : String} :
    Related (shared ++ p) (shared ++ q) ↔ Related p q := by
  simp only [related_iff, ProjectPackages.isNested, List.isPrefixOf_iff_prefix,
    String.toList_append, List.append_assoc, List.prefix_append_right_inj, ← String.toList_inj,
    List.append_cancel_left_eq]

/-- Packages whose names begin with different characters are not related. -/
theorem not_related_of_head?_ne {p q : String} (hp : p ≠ "") (hq : q ≠ "")
    (h : p.toList.head? ≠ q.toList.head?) : ¬ Related p q := by
  have hhead : ∀ outer inner : String, outer ≠ "" → ProjectPackages.isNested outer inner = true →
      outer.toList.head? = inner.toList.head? := by
    intro outer inner houter hnested
    obtain ⟨rest, hrest⟩ := List.isPrefixOf_iff_prefix.mp hnested
    have hne : outer.toList ≠ [] := fun hnil => houter (String.toList_eq_nil_iff.mp hnil)
    rw [← hrest, List.append_assoc, List.head?_append_of_ne_nil _ hne]
  rw [related_iff]
  rintro (rfl | hnested | hnested)
  · exact h rfl
  · exact h (hhead q p hq hnested).symm
  · exact h (hhead p q hp hnested)

/-- **Packages that part** after a text with which both begin are related exactly when one of
them ends there and the other goes on with a dot. -/
theorem related_append_iff {shared p q : String} (h : p.toList.head? ≠ q.toList.head?) :
    Related (shared ++ p) (shared ++ q) ↔ p = "" ∧ DotLeading q ∨ q = "" ∧ DotLeading p := by
  rw [related_append_left_iff]
  by_cases hp : p = ""
  · subst hp
    have hq : q ≠ "" := fun hq => h (by rw [hq])
    have hdefault := related_default_iff (q := q)
    rw [defaultPackage] at hdefault
    simp [hdefault, hq]
  · by_cases hq : q = ""
    · subst hq
      have hdefault := related_default_iff (q := p)
      rw [defaultPackage, related_comm] at hdefault
      simp [hdefault, hp]
    · simp [not_related_of_head?_ne hp hq h, hp, hq]

/-! ### The classes of a project -/

/-- **The classes that belong to a project** are those whose package is related to a project
package, for all names and packages; a class without a package belongs to none. So a package
never brings in one whose name merely begins with the same characters: of two packages that
part after some text, one has to end there and the other to go on with a dot. And the default
package is related to itself and to the packages whose name starts with a dot. -/
theorem ProjectPackages.contains_iff_related (p : ProjectPackages) (name : Option String) :
    (∀ package, packageOf name = some package →
      (p.contains name = true ↔ ∃ q ∈ p.names, Related package q)) ∧
    (packageOf name = .none → p.contains name = false) ∧
    (∀ shared rest rest', rest.toList.head? ≠ rest'.toList.head? →
      (Related (shared ++ rest) (shared ++ rest') ↔
        rest = "" ∧ DotLeading rest' ∨ rest' = "" ∧ DotLeading rest)) ∧
    ∀ q, Related defaultPackage q ↔ q = defaultPackage ∨ DotLeading q := by
  refine ⟨fun package hpackage => ?_, fun hnone => ?_, fun _ _ _ => related_append_iff,
    fun _ => related_default_iff⟩
  · simp [contains, hpackage, related_iff, or_assoc]
  · simp [contains, hnone]

/-- A class of a nested package belongs to the project. A class whose package merely begins
with the same characters does not, and neither do one of the default package and one without a
package. -/
theorem ProjectPackages.contains_iff_related_of_shared_beginning :
    let p : ProjectPackages := ⟨["com.example"]⟩
    p.contains (some "com.example.ui.Button") = true ∧
      p.contains (some "com.examples.Button") = false ∧ p.contains (some "Main") = false ∧
      p.contains (some ".Main") = false := by
  intro p
  have hcontains : ∀ name package, packageOf (some name) = some package →
      (p.contains (some name) = true ↔ Related package "com.example") :=
        fun name package hpackage => by
    rw [(contains_iff_related p (some name)).1 package hpackage]
    simp [p]
  obtain ⟨-, hnone, hparting, hdefault⟩ := contains_iff_related p (some ".Main")
  refine ⟨?_, ?_, ?_, hnone (by decide)⟩
  · rw [hcontains _ "com.example.ui" (by decide)]
    decide
  · rw [← Bool.not_eq_true, hcontains _ ("com.example" ++ "s") (by decide)]
    exact (hparting "com.example" "s" "" (by decide)).not.mpr (by decide)
  · rw [← Bool.not_eq_true, hcontains _ defaultPackage (by decide), hdefault]
    decide

end Linkage
