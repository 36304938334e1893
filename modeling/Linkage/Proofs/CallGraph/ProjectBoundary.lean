import Mathlib
import Linkage.Proofs.Coupling.Counting

/-!
# The boundary of the project

The packages of a project are read off its own call graph: every named package in which a class
of the graph lies becomes one of them. So the filter that follows turns down no class of a
named package, be it one of the project or of a library that it calls. What it leaves out is
*foreign*: an identifier without a class, a class without a package, and a class in the default
package that is only called.

Packages that are nested in each other count as related, but as all of them are project
packages by name, this decides nothing. There is one exception. The default package has the
empty name, and a package whose name starts with a dot counts as nested in it.

## Main results

* `ProjectPackages.contains_of_mem`, `ProjectPackages.contains_default_iff`: the classes that a
  set of packages contains.
* `CallGraph.mem_names_of_mentions`: every named package of a graph is a project package.
* `CallGraph.contains_iff_of_mentions`: nesting decides nothing for named packages.
* `CallGraph.project_boundary`: the callers and callees that are left out.
-/

namespace Linkage

/-! ### Nesting and the default package -/

/-- A name that **starts with a dot**. -/
def DotLeading (name : String) : Prop := name.toList.head? = some '.'

instance (name : String) : Decidable (DotLeading name) :=
  inferInstanceAs (Decidable (name.toList.head? = some '.'))

namespace ProjectPackages

/-- What is nested in the default package starts with a dot. -/
theorem isNested_default_iff {package : String} :
    isNested defaultPackage package = true ↔ DotLeading package := by
  have hempty : defaultPackage.toList = [] := rfl
  rw [isNested, DotLeading, hempty]
  cases package.toList with
  | nil => simp
  | cons c rest =>
      simp only [List.nil_append, List.isPrefixOf, Bool.and_true, beq_iff_eq, List.head?_cons,
        Option.some.injEq]
      exact eq_comm

/-- The default package is nested in no package. -/
theorem not_isNested_default (package : String) : isNested package defaultPackage = false := by
  have hempty : defaultPackage.toList = [] := rfl
  rw [isNested, hempty]
  cases package.toList <;> rfl

variable {p : ProjectPackages} {name : Option String} {q : String}

/-- A class of a project package belongs to the project. -/
theorem contains_of_mem (hpackage : packageOf name = some q) (hq : q ∈ p.names) :
    p.contains name = true := by
  simp only [contains, hpackage, List.any_eq_true]
  exact ⟨q, hq, by simp⟩

/-- A class of the default package belongs to the project when that package does, and when some
package starts with a dot. -/
theorem contains_default_iff (hpackage : packageOf name = some defaultPackage) :
    p.contains name = true ↔ defaultPackage ∈ p.names ∨ ∃ q ∈ p.names, DotLeading q := by
  simp only [contains, hpackage, List.any_eq_true, Bool.or_eq_true, beq_iff_eq,
    not_isNested_default, isNested_default_iff, Bool.false_eq_true, or_false]
  constructor
  · rintro ⟨q, hq, rfl | hdot⟩
    · exact .inl hq
    · exact .inr ⟨q, hq, hdot⟩
  · rintro (hdefault | ⟨q, hq, hdot⟩)
    · exact ⟨_, hdefault, .inl rfl⟩
    · exact ⟨q, hq, .inr hdot⟩

end ProjectPackages

namespace CallGraph

variable {g : CallGraph} {identifier : String}

/-! ### The packages of a graph -/

/-- A graph **mentions** its callers and what they call. -/
def Mentions (g : CallGraph) (identifier : String) : Prop :=
  identifier ∈ g.keys ∨ ∃ caller, g.Calls caller identifier

/-- The detected packages are those that the graph names. -/
theorem mem_names_detect {package : String} :
    package ∈ (ProjectPackages.detect g).names ↔ package ∈ ProjectPackages.namedIn g := by
  rw [ProjectPackages.detect, ProjectPackages.redetect_eq, ProjectPackages.ofList, Text.mem_members]

/-- **Every named package of a graph is a project package.** -/
theorem mem_names_of_mentions {q : String} (h : g.Mentions identifier)
    (hpackage : ProjectPackages.packageIn (.ofGraph g) identifier = some q)
    (hq : q ≠ defaultPackage) : q ∈ (ProjectPackages.detect g).names := by
  rw [mem_names_detect, mem_namedIn]
  rcases h with hcaller | ⟨caller, hcalls⟩
  · exact .inl ⟨identifier, hcaller, hpackage⟩
  · exact .inr ⟨caller, identifier, hcalls, hpackage, hq⟩

/-- The default package is a project package when the class of a caller lies in it. -/
theorem default_mem_names_iff : defaultPackage ∈ (ProjectPackages.detect g).names ↔
    ∃ caller ∈ g.keys, ProjectPackages.packageIn (.ofGraph g) caller = some defaultPackage := by
  rw [mem_names_detect, mem_namedIn, or_iff_left]
  rintro ⟨-, -, -, -, hne⟩
  exact hne rfl

/-- **Nesting decides nothing** for what a graph mentions, except that a package which starts
with a dot brings in the default package. -/
theorem contains_iff_of_mentions (h : g.Mentions identifier) :
    (ProjectPackages.detect g).contains
        ((ClassResolver.ofGraph g).resolve (some identifier)) = true ↔
      ∃ q, ProjectPackages.packageIn (.ofGraph g) identifier = some q ∧
        (q ∈ (ProjectPackages.detect g).names ∨
          q = defaultPackage ∧ ∃ q' ∈ (ProjectPackages.detect g).names, DotLeading q') := by
  cases hpackage : ProjectPackages.packageIn (.ofGraph g) identifier with
  | none =>
      rw [ProjectPackages.packageIn] at hpackage
      simp [ProjectPackages.contains, hpackage]
  | some q =>
      simp only [Option.some.injEq, exists_eq_left']
      by_cases hq : q = defaultPackage
      · subst hq
        rw [ProjectPackages.contains_default_iff hpackage]
        simp
      · have hmem := mem_names_of_mentions h hpackage hq
        exact iff_of_true (ProjectPackages.contains_of_mem hpackage hmem) (.inl hmem)

/-! ### What is left out -/

/-- An identifier is **foreign** to a graph when it has no class, when its class has no
package, and when its class lies in the default package although no caller's class does and no
project package starts with a dot. -/
def Foreign (g : CallGraph) (identifier : String) : Prop :=
  let r := ClassResolver.ofGraph g
  r.resolve (some identifier) = none ∨ packageOf (r.resolve (some identifier)) = none ∨
    packageOf (r.resolve (some identifier)) = some defaultPackage ∧
      (∀ caller ∈ g.keys, packageOf (r.resolve (some caller)) ≠ some defaultPackage) ∧
      ∀ q ∈ (ProjectPackages.detect g).names, ¬ DotLeading q

instance (g : CallGraph) (identifier : String) : Decidable (g.Foreign identifier) := by
  unfold Foreign
  infer_instance

/-- A call has no class of the project exactly when its class lies outside the packages. -/
theorem projectClass_eq_none_iff {r : ClassResolver} {p : ProjectPackages} :
    projectClass r p identifier = none ↔ p.contains (r.resolve (some identifier)) = false := by
  rw [projectClass, Option.filter_eq_none_iff]
  cases r.resolve (some identifier) with
  | none => simp [ProjectPackages.contains, packageOf]
  | some k => simp

/-- **What is left out of what a graph mentions is what is foreign to it.** -/
theorem projectClass_eq_none_iff_foreign (h : g.Mentions identifier) :
    projectClass (.ofGraph g) (.detect g) identifier = none ↔ g.Foreign identifier := by
  rw [projectClass_eq_none_iff, ← Bool.not_eq_true, contains_iff_of_mentions h, Foreign]
  cases hpackage : ProjectPackages.packageIn (.ofGraph g) identifier with
  | none =>
      rw [ProjectPackages.packageIn] at hpackage
      simp [hpackage]
  | some q =>
      have hclass : (ClassResolver.ofGraph g).resolve (some identifier) ≠ none := fun hnone => by
        rw [ProjectPackages.packageIn, hnone] at hpackage
        cases hpackage
      have hdefault := default_mem_names_iff (g := g)
      simp only [ProjectPackages.packageIn] at hpackage hdefault
      by_cases hq : q = defaultPackage
      · subst hq
        simp [hclass, hpackage, hdefault]
      · have hmem := mem_names_of_mentions h hpackage hq
        simp [hclass, hpackage, hmem, hq]

/-- A caller is left out when it has no class or its class no package: a default package that
its class lies in is one of the project. -/
theorem projectClass_caller_eq_none_iff {caller : String} (h : caller ∈ g.keys) :
    projectClass (.ofGraph g) (.detect g) caller = none ↔
      (ClassResolver.ofGraph g).resolve (some caller) = none ∨
        packageOf ((ClassResolver.ofGraph g).resolve (some caller)) = none := by
  rw [projectClass_eq_none_iff_foreign (.inl h), Foreign]
  refine or_congr_right (or_iff_left ?_)
  rintro ⟨hdefault, hnone, -⟩
  exact hnone caller h hdefault

/-- The class of any other caller belongs to the project. -/
theorem projectClass_caller_eq_some_iff {caller k : String} (h : caller ∈ g.keys) :
    projectClass (.ofGraph g) (.detect g) caller = some k ↔
      (ClassResolver.ofGraph g).resolve (some caller) = some k ∧ packageOf (some k) ≠ none := by
  constructor
  · intro hk
    have hresolve := (projectClass_eq_some_iff.mp hk).1
    refine ⟨hresolve, fun hpackage => ?_⟩
    rw [(projectClass_caller_eq_none_iff h).mpr (.inr (hresolve ▸ hpackage))] at hk
    cases hk
  · rintro ⟨hresolve, hpackage⟩
    obtain ⟨q, hq⟩ := Option.ne_none_iff_exists'.mp hpackage
    have hnamed : q ∈ ProjectPackages.namedIn g :=
      mem_namedIn.mpr (.inl ⟨caller, h, by rw [ProjectPackages.packageIn, hresolve, hq]⟩)
    exact projectClass_eq_some_iff.mpr
      ⟨hresolve, ProjectPackages.contains_of_mem hq (mem_names_detect.mpr hnamed)⟩

/-! ### The calls skipped -/

/-- A class that is not left out is the one that the identifier resolves to. -/
theorem projectClass_eq_ite (h : g.Mentions identifier) :
    projectClass (.ofGraph g) (.detect g) identifier =
      if g.Foreign identifier then none
      else (ClassResolver.ofGraph g).resolve (some identifier) := by
  split
  · next hforeign => exact (projectClass_eq_none_iff_foreign h).mpr hforeign
  · next hforeign =>
    rw [← projectClass_eq_none_iff_foreign h, Option.eq_none_iff_forall_ne_some] at hforeign
    push Not at hforeign
    obtain ⟨k, hk⟩ := hforeign
    rw [hk, (projectClass_eq_some_iff.mp hk).1]

/-- **The calls that are looked at** are those of the callers whose class has a package; the
ones that are skipped are to foreign callees. -/
theorem mem_callsWithin_detect {call : ProjectCall} :
    call ∈ g.callsWithin (.detect g) ↔
      (∃ caller, g.Calls caller call.callee ∧
        (ClassResolver.ofGraph g).resolve (some caller) = some call.caller ∧
          packageOf (some call.caller) ≠ none) ∧
      call.target = if g.Foreign call.callee then none
        else (ClassResolver.ofGraph g).resolve (some call.callee) := by
  rw [mem_callsWithin]
  constructor
  · rintro ⟨caller, hcalls, hk, htarget⟩
    rw [projectClass_eq_ite (.inr ⟨caller, hcalls⟩)] at htarget
    exact ⟨⟨caller, hcalls, (projectClass_caller_eq_some_iff hcalls.mem_keys).mp hk⟩, htarget⟩
  · rintro ⟨⟨caller, hcalls, hk⟩, htarget⟩
    rw [← projectClass_eq_ite (.inr ⟨caller, hcalls⟩)] at htarget
    exact ⟨caller, hcalls, (projectClass_caller_eq_some_iff hcalls.mem_keys).mpr hk, htarget⟩

/-- **The calls skipped** are as many as the foreign callees of the callers that are not left
out. -/
theorem skippedCalls_eq (g : CallGraph) :
    g.skippedCalls =
      ((g.callers.filter fun caller =>
        (projectClass (.ofGraph g) (.detect g) caller).isSome).flatMap
        g.calleesOf).countP fun callee => decide (g.Foreign callee) := by
  rw [skippedCalls, ← List.countP_eq_length_filter, callsWithin]
  induction g.callers with
  | nil => rfl
  | cons caller rest ih =>
      rw [List.flatMap_cons, List.countP_append, ih]
      cases hk : projectClass (.ofGraph g) (.detect g) caller with
      | none =>
          rw [List.filter_cons_of_neg (by simp [hk]), List.countP_nil, Nat.zero_add]
      | some k =>
          rw [List.filter_cons_of_pos (by simp [hk]), List.flatMap_cons, List.countP_append,
            List.countP_map]
          refine congrArg (· + _) (List.countP_congr fun callee hcallee => ?_)
          have hmention : g.Mentions callee := .inr ⟨caller, mem_calleesOf.mp hcallee⟩
          simp [projectClass_eq_none_iff_foreign hmention]

/-- **The boundary of the project.** A caller is left out when it has no class or its class no
package. The calls that are looked at are those of the other callers, and a callee is skipped
when it is foreign: it has no class, its class has no package, or it lies in the default
package while no caller's class does and no project package starts with a dot. So a callee in a
named package always belongs to the project, and for what the graph mentions nesting decides
nothing but that exception. -/
theorem project_boundary (g : CallGraph) :
    let r := ClassResolver.ofGraph g
    let p := ProjectPackages.detect g
    (∀ caller ∈ g.keys, projectClass r p caller = none ↔
      r.resolve (some caller) = none ∨ packageOf (r.resolve (some caller)) = none) ∧
    (∀ k callee target, ⟨k, callee, target⟩ ∈ g.callsWithin p ↔
      (∃ caller, g.Calls caller callee ∧ r.resolve (some caller) = some k ∧
        packageOf (some k) ≠ none) ∧
        target = if g.Foreign callee then none else r.resolve (some callee)) ∧
    g.skippedCalls = ((g.callers.filter fun caller => (projectClass r p caller).isSome).flatMap
      g.calleesOf).countP (fun callee => decide (g.Foreign callee)) ∧
    (∀ caller callee k q, g.Calls caller callee → r.resolve (some callee) = some k →
      packageOf (some k) = some q → q ≠ defaultPackage → projectClass r p callee = some k) ∧
    ∀ identifier, g.Mentions identifier →
      (p.contains (r.resolve (some identifier)) = true ↔
        ∃ q, packageOf (r.resolve (some identifier)) = some q ∧
          (q ∈ p.names ∨ q = defaultPackage ∧ ∃ q' ∈ p.names, DotLeading q')) := by
  intro r p
  refine ⟨fun _ => projectClass_caller_eq_none_iff, fun k callee target => mem_callsWithin_detect,
    skippedCalls_eq g, fun caller callee k q hcalls hk hpackage hq => ?_,
    fun _ => contains_iff_of_mentions⟩
  have hq' : ProjectPackages.packageIn r callee = some q := by
    rw [ProjectPackages.packageIn, hk, hpackage]
  have hmem := mem_names_of_mentions (.inr ⟨caller, hcalls⟩) hq' hq
  exact projectClass_eq_some_iff.mpr ⟨hk, ProjectPackages.contains_of_mem hpackage hmem⟩

/-- A class calls the class that it extends and a library: the class of the library counts as
part of the project, and the call to `super` is skipped. -/
theorem project_boundary_of_library_call :
    let g : CallGraph := .ofList [("app.C.run", ["super.run", "lib.L.add"])]
    g.Calls "app.C.run" "lib.L.add" ∧
      projectClass (.ofGraph g) (.detect g) "app.C.run" ≠ none ∧
      projectClass (.ofGraph g) (.detect g) "lib.L.add" = some "lib.L" ∧
      ⟨"app.C", "super.run", none⟩ ∈ g.callsWithin (.detect g) := by
  intro g
  have hcalls : g.Calls "app.C.run" "lib.L.add" := ⟨_, List.mem_singleton.mpr rfl, by decide⟩
  have hsuper : g.Calls "app.C.run" "super.run" := ⟨_, List.mem_singleton.mpr rfl, by decide⟩
  have hresolve : (ClassResolver.ofGraph g).resolve (some "app.C.run") = some "app.C" := by
    subst g; cbv
  have hnames : ProjectPackages.namedIn g = ["app", "lib"] := by subst g; cbv
  have hdefault : packageOf ((ClassResolver.ofGraph g).resolve (some "super.run")) =
      some defaultPackage := by subst g; cbv
  have hforeign : g.Foreign "super.run" := by
    refine .inr (.inr ⟨hdefault, fun caller hcaller => ?_, fun q hq => ?_⟩)
    · obtain rfl := List.mem_singleton.mp hcaller
      rw [hresolve]
      decide
    · rw [mem_names_detect, hnames] at hq
      fin_cases hq <;> decide
  obtain ⟨hcaller, hcall, -, hnamed, -⟩ := project_boundary g
  refine ⟨hcalls, ?_, ?_, ?_⟩
  · rw [Ne, hcaller _ hcalls.mem_keys, hresolve]
    decide
  · exact hnamed _ _ "lib.L" "lib" hcalls (by subst g; cbv) (by decide) (by decide)
  · exact (hcall _ _ _).mpr ⟨⟨_, hsuper, hresolve, by decide⟩, by rw [if_pos hforeign]⟩

end CallGraph

end Linkage
