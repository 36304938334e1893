import Mathlib
import Linkage.Proofs.CallGraph.Resolution

/-!
# Classes that stay as they are resolved

A class that some identifier belongs to is the class of its own methods. When the class has a
package this is its class part. When it has none it was either found at a short name, and then
it is its own first namesake, or it was found nowhere, and then its methods are found nowhere
either.

## Main results

* `CallGraph.ClassOf`: the class of an identifier with a given class part.
* `CallGraph.ClassOf.fixed`: such a class is the class of its own methods.
* `ClassResolver.resolve_eq_some_iff`: what an identifier is resolved to.
* `ClassResolver.resolve_least_namesake`: the least caller decides, whatever the order of the
  graph, and classes stay as they are resolved.
-/

namespace Linkage

variable {g : CallGraph} {identifier : Option String} {k k₀ m m₀ : String}

/-! ### Class parts -/

/-- A class part is not empty. -/
theorem ne_empty_of_ownerOf (h : ownerOf identifier = some k) : k ≠ "" := by
  rintro rfl
  obtain _ | s := identifier
  · cases h
  · simp only [ownerOf] at h
    split at h
    · cases h
    · cases h
    · next before _ hbefore _ => exact hbefore (by simpa using h)

/-- The class part of a method of a class is the class. -/
theorem ownerOf_method (hk : k ≠ "") (hm : '.' ∉ m.toList) :
    ownerOf (some (k ++ "." ++ m)) = some k := by
  have hcut : cutLast (k ++ "." ++ m).toList = some (k.toList, m.toList) := by
    simpa using cutLast_append k.toList hm
  obtain ⟨c, rest, hchars⟩ : ∃ c rest, k.toList = c :: rest :=
    List.exists_cons_of_ne_nil (by simpa using hk)
  rw [hchars] at hcut
  simp only [ownerOf, hcut]
  rw [← hchars, String.ofList_toList]

namespace CallGraph

/-! ### The class of a class part -/

/-- The first namesake of a class is its own first namesake. -/
theorem FirstNamesake.self (h : g.FirstNamesake k m₀ k₀) : g.FirstNamesake k₀ m₀ k₀ where
  mem_keys := h.mem_keys
  owner := h.owner
  namesakes := .refl k₀
  least m hm k' hk' hname := h.least m hm k' hk' (h.namesakes.trans hname)

/-- No caller is declared in a namesake of a class. -/
def NoNamesake (g : CallGraph) (k : String) : Prop :=
  ∀ m ∈ g.keys, ∀ k', ownerOf (some m) = some k' → ¬ Namesakes k k'

/-- A class has a first namesake unless it has no namesake. -/
theorem firstNamesake_or_noNamesake (g : CallGraph) (k : String) :
    (∃ m₀ k₀, g.FirstNamesake k m₀ k₀) ∨ g.NoNamesake k := by
  cases hfind : g.declaringClasses.find? fun k' => decide (Namesakes k k') with
  | some k₀ =>
      obtain ⟨m₀, hfirst⟩ := find?_declaringClasses_eq_some_iff.mp hfind
      exact .inl ⟨m₀, k₀, hfirst⟩
  | none =>
      refine .inr fun m hm k' hk' hname => ?_
      have hmem : k' ∈ g.declaringClasses := List.mem_filterMap.mpr ⟨m, mem_callers.mpr hm, hk'⟩
      exact absurd hname (by simpa using List.find?_eq_none.mp hfind k' hmem)

/-- The **class of a class part** `k`: the class that identifiers with this class part belong
to. -/
inductive ClassOf (g : CallGraph) (k : String) : String → Prop
  /-- The class part has a package. -/
  | qualified (hdotted : isDotted k = true) : ClassOf g k k
  /-- The class part has no package, and a namesake that declares a caller. -/
  | found {m₀ k₀ : String} (hdotted : isDotted k = false) (hfirst : g.FirstNamesake k m₀ k₀) :
      ClassOf g k k₀
  /-- The class part has no package, and no namesake. -/
  | missing (hdotted : isDotted k = false) (hnone : g.NoNamesake k) : ClassOf g k k

/-- **A class that is found is fixed**: identifiers with it as their class part belong
to it. -/
theorem ClassOf.fixed (h : g.ClassOf k k₀) : g.ClassOf k₀ k₀ := by
  cases h with
  | qualified hdotted => exact .qualified hdotted
  | found hdotted hfirst =>
      -- the class that was found may have a package, which the class part had not
      cases hpackage : isDotted k₀ with
      | true => exact .qualified hpackage
      | false => exact .found hpackage hfirst.self
  | missing hdotted hnone => exact .missing hdotted hnone

/-- A class with a name stands for a class with a name. -/
theorem ClassOf.ne_empty (h : g.ClassOf k k₀) (hk : k ≠ "") : k₀ ≠ "" := by
  cases h with
  | qualified _ => exact hk
  | found _ hfirst => exact ne_empty_of_ownerOf hfirst.owner
  | missing _ _ => exact hk

end CallGraph

/-! ### Resolving -/

namespace ClassResolver

open CallGraph

/-- A class part without namesakes is left as it is. -/
theorem resolve_of_noNamesake (h : g.NoNamesake k) (hk : ownerOf identifier = some k) :
    (ofGraph g).resolve identifier = some k := by
  cases hdotted : isDotted k with
  | true => exact resolve_of_dotted _ hk hdotted
  | false =>
      have hfind : g.declaringClasses.find? (fun k' => decide (Namesakes k k')) = none := by
        refine List.find?_eq_none.mpr fun k' hmem => ?_
        obtain ⟨m, hm, hk'⟩ := List.mem_filterMap.mp hmem
        simpa using h m (mem_callers.mp hm) k' hk'
      rw [resolve_of_not_dotted g hk hdotted, hfind, Option.getD_none]

/-- Identifiers are resolved to the class of their class part. -/
theorem resolve_of_classOf (h : g.ClassOf k k₀) (hk : ownerOf identifier = some k) :
    (ofGraph g).resolve identifier = some k₀ := by
  cases h with
  | qualified hdotted => exact resolve_of_dotted _ hk hdotted
  | found hdotted hfirst => rw [resolve_of_firstNamesake hfirst hk, hdotted]; rfl
  | missing _ hnone => exact resolve_of_noNamesake hnone hk

/-- Every class part has a class. -/
theorem exists_classOf (g : CallGraph) (k : String) : ∃ k₀, g.ClassOf k k₀ := by
  cases hdotted : isDotted k with
  | true => exact ⟨k, .qualified hdotted⟩
  | false =>
      rcases firstNamesake_or_noNamesake g k with ⟨m₀, k₀, hfirst⟩ | hnone
      · exact ⟨k₀, .found hdotted hfirst⟩
      · exact ⟨k, .missing hdotted hnone⟩

/-- **What an identifier is resolved to**: the class of its class part. -/
theorem resolve_eq_some_iff :
    (ofGraph g).resolve identifier = some k₀ ↔
      ∃ k, ownerOf identifier = some k ∧ g.ClassOf k k₀ := by
  constructor
  · intro h
    cases hk : ownerOf identifier with
    | none => simp [resolve, hk] at h
    | some k =>
        obtain ⟨c, hclass⟩ := exists_classOf g k
        obtain rfl : c = k₀ := Option.some.inj ((resolve_of_classOf hclass hk).symm.trans h)
        exact ⟨k, rfl, hclass⟩
  · rintro ⟨k, hk, hclass⟩
    exact resolve_of_classOf hclass hk

/-- **The least caller decides.** An identifier whose class part has no package is resolved to
the class of the least caller that is declared in a namesake of its class part, or to its class
part when there is no such caller, whatever the order in which the graph has its callers. What
an identifier is resolved to is stable: the methods of that class are resolved to it. -/
theorem resolve_least_namesake (g : CallGraph) :
    (∀ identifier k, ownerOf identifier = some k → isDotted k = false →
      (∃ m₀ k₀, g.FirstNamesake k m₀ k₀ ∧ (ofGraph g).resolve identifier = some k₀) ∨
      (g.NoNamesake k ∧ (ofGraph g).resolve identifier = some k)) ∧
    (∀ g' : CallGraph, (∀ m, m ∈ g.keys ↔ m ∈ g'.keys) → ofGraph g = ofGraph g') ∧
    ∀ identifier k, (ofGraph g).resolve identifier = some k → ∀ m : String, '.' ∉ m.toList →
      (ofGraph g).resolve (some (k ++ "." ++ m)) = some k := by
  refine ⟨fun identifier k hk hdotted => ?_, fun g' hkeys => ?_, fun identifier k hk m hm => ?_⟩
  · rcases firstNamesake_or_noNamesake g k with ⟨m₀, k₀, hfirst⟩ | hnone
    · exact .inl ⟨m₀, k₀, hfirst, resolve_of_classOf (.found hdotted hfirst) hk⟩
    · exact .inr ⟨hnone, resolve_of_noNamesake hnone hk⟩
  · exact ofGraph_congr (callers_congr hkeys)
  · obtain ⟨k', hk', hclass⟩ := resolve_eq_some_iff.mp hk
    have hne : k ≠ "" := hclass.ne_empty (ne_empty_of_ownerOf hk')
    exact resolve_of_classOf hclass.fixed (ownerOf_method hne hm)

/-- Of two callers that are declared in namesakes of `h` the lesser one decides, though it
comes last, and its class, which has no package, stays as it is found. -/
theorem resolve_least_namesake_of_two :
    let g : CallGraph := .ofList [("b.h.f", []), ("H.f", [])]
    let g' : CallGraph := .ofList [("H.f", ["b.h.f"]), ("b.h.f", [])]
    (ofGraph g).resolve (some "h.x") = some "H" ∧ (ofGraph g').resolve (some "h.x") = some "H" ∧
      (ofGraph g).resolve (some "H.y") = some "H" := by
  intro g g'
  have hkeys : g.keys = ["b.h.f", "H.f"] := by subst g; cbv
  have hkeys' : g'.keys = ["H.f", "b.h.f"] := by subst g'; cbv
  obtain ⟨hclass, horder, hstable⟩ := resolve_least_namesake g
  have hleast : g.FirstNamesake "h" "H.f" "H" := by
    refine ⟨by simp [hkeys], by cbv, by cbv, fun m hm _ _ _ => ?_⟩
    rw [hkeys] at hm
    fin_cases hm <;> decide
  have hfound : (ofGraph g).resolve (some "h.x") = some "H" := by
    rcases hclass (some "h.x") "h" (by cbv) (by cbv) with ⟨m₀, k₀, h, hres⟩ | ⟨hnone, -⟩
    · rw [hres, (h.unique hleast (.refl "h")).2]
    · exact absurd hleast.namesakes (hnone _ hleast.mem_keys _ hleast.owner)
  have hsame : ofGraph g = ofGraph g' := horder g' fun m => by simp [hkeys, hkeys', or_comm]
  exact ⟨hfound, hsame ▸ hfound, hstable _ _ hfound "y" (by decide)⟩

end ClassResolver

end Linkage
