import Mathlib
import Linkage.Coupling.CallCount
import Linkage.Proofs.CallGraph.SameCalls

/-!
# What a count of calls says

Two project classes are coupled by an identifier when a method of one of them calls it and it
belongs to the other. The count of a pair is the number of identifiers that couple it, so it
does not depend on how often, by how many methods, from which side or in which order they are
called.

The relations counted are collected in a pass over callers and callees that remembers what it
has met; a tally of them counts every relation once.

## Main results

* `get?_tally`: a tally finds at a pair the number of its relations.
* `CallGraph.mem_relationsWithin`: the relations counted are those between two classes.
* `CallGraph.SameCalls.relationsWithin_eq`: they are met in the same order in graphs with the
  same calls.
* `countCallsIn_eq_couplings`: the table of a call graph.
-/

namespace Linkage

/-! ### Pairs of classes -/

/-- The pair of two different classes is `(a, b)` when they are `a` and `b` and `a` is the
lesser. -/
theorem canonicalPair_eq_iff {k k' a b : String} (h : k ≠ k') :
    canonicalPair k k' = (a, b) ↔ a < b ∧ ({k, k'} : Set String) = {a, b} := by
  rw [Set.pair_eq_pair_iff, canonicalPair]
  by_cases hle : k ≤ k'
  · have hlt : k < k' := lt_of_le_of_ne hle h
    rw [if_pos hle, Prod.mk.injEq]
    constructor
    · rintro ⟨rfl, rfl⟩
      exact ⟨hlt, .inl ⟨rfl, rfl⟩⟩
    · rintro ⟨hab, ⟨rfl, rfl⟩ | ⟨rfl, rfl⟩⟩
      · exact ⟨rfl, rfl⟩
      · exact absurd hab (not_lt_of_gt hlt)
  · have hlt : k' < k := not_le.mp hle
    rw [if_neg hle, Prod.mk.injEq]
    constructor
    · rintro ⟨rfl, rfl⟩
      exact ⟨hlt, .inr ⟨rfl, rfl⟩⟩
    · rintro ⟨hab, ⟨rfl, rfl⟩ | ⟨rfl, rfl⟩⟩
      · exact absurd hab (not_lt_of_gt hlt)
      · exact ⟨rfl, rfl⟩

/-! ### Tallies -/

/-- The relations of a pair. -/
def relationsOf (relations : List Relation) (pair : ClassPair) : List Relation :=
  relations.filter fun r => decide (r.1 = pair)

/-- One more relation adds one to the count of its pair. -/
theorem tally_append_singleton (relations : List Relation) (r : Relation) :
    tally (relations ++ [r]) = (tally relations).insert r.1 ((tally relations).getD r.1 0 + 1) := by
  simp [tally]

/-- **A tally finds at a pair the number of its relations**, and nothing at a pair without any.
Induction on the relations from the last one on. -/
theorem get?_tally (relations : List Relation) (pair : ClassPair) :
    (tally relations).get? pair =
      if relationsOf relations pair = [] then none
      else some ((relationsOf relations pair).length : Int) := by
  induction relations using List.reverseRecOn with
  | nil => rfl
  | append_singleton relations r ih =>
      rw [tally_append_singleton, OrderedMap.get?_insert]
      by_cases hr : r.1 = pair
      · subst hr
        have hsnoc : relationsOf (relations ++ [r]) r.1 = relationsOf relations r.1 ++ [r] := by
          simp [relationsOf]
        have hne : relationsOf relations r.1 ++ [r] ≠ [] := by simp
        rw [if_pos rfl, OrderedMap.getD, ih, hsnoc, if_neg hne]
        by_cases hnone : relationsOf relations r.1 = []
        · simp [hnone]
        · simp [hnone]
      · have hsame : relationsOf (relations ++ [r]) pair = relationsOf relations pair := by
          simp [relationsOf, hr]
        rw [if_neg hr, ih, hsame]

/-- A pair has a relation when one of the relations is of it. -/
theorem relationsOf_ne_nil_iff {relations : List Relation} {pair : ClassPair} :
    relationsOf relations pair ≠ [] ↔ ∃ c, (pair, c) ∈ relations := by
  constructor
  · intro hne
    obtain ⟨⟨pair', c⟩, hr⟩ := List.exists_mem_of_ne_nil _ hne
    obtain ⟨hmem, hpair⟩ := List.mem_filter.mp hr
    obtain rfl : pair' = pair := of_decide_eq_true hpair
    exact ⟨c, hmem⟩
  · rintro ⟨c, hc⟩
    exact List.ne_nil_of_mem (List.mem_filter.mpr ⟨hc, decide_eq_true rfl⟩)

/-- The pairs of a tally are those that have a relation. -/
theorem mem_keys_tally {relations : List Relation} {pair : ClassPair} :
    pair ∈ (tally relations).keys ↔ ∃ c, (pair, c) ∈ relations := by
  rw [← OrderedMap.isSome_get?_iff, get?_tally, ← relationsOf_ne_nil_iff]
  split <;> simp_all

/-- Relations of one pair that do not repeat are as many as the identifiers they name. -/
theorem length_relationsOf {relations : List Relation} (h : relations.Nodup) (pair : ClassPair) :
    (relationsOf relations pair).length = {c | (pair, c) ∈ relations}.ncard := by
  have hinj : ∀ r ∈ relationsOf relations pair, ∀ r' ∈ relationsOf relations pair,
      r.2 = r'.2 → r = r' := by
    intro r hr r' hr' heq
    have h₁ : r.1 = pair := of_decide_eq_true (List.mem_filter.mp hr).2
    have h₂ : r'.1 = pair := of_decide_eq_true (List.mem_filter.mp hr').2
    exact Prod.ext (h₁.trans h₂.symm) heq
  have hnodup : ((relationsOf relations pair).map Prod.snd).Nodup :=
    (h.filter _).map_on hinj
  have hset : {c | (pair, c) ∈ relations} =
      (((relationsOf relations pair).map Prod.snd).toFinset : Set String) := by
    ext c
    simp [relationsOf]
  rw [hset, Set.ncard_coe_finset, List.toFinset_card_of_nodup hnodup, List.length_map]

/-! ### Collecting without repetitions -/

/-- Adds what has not been met yet. -/
def meet {β : Type} [DecidableEq β] (met : List β) (x : β) : List β :=
  if x ∈ met then met else met ++ [x]

/-- What was met before is not met again. -/
theorem meet_meet {β : Type} [DecidableEq β] (met : List β) (x : β) :
    meet (meet met x) x = meet met x := by
  by_cases h : x ∈ met <;> simp [meet, h]

section

variable {β : Type} [DecidableEq β] [BEq β] [LawfulBEq β]

/-- Dropping later repetitions is a pass that remembers what it has met. -/
theorem eraseDups_eq_foldl (xs : List β) : xs.eraseDups = xs.foldl meet [] := by
  induction xs using List.reverseRecOn with
  | nil => rfl
  | append_singleton xs x ih =>
      rw [List.foldl_append, ← ih, List.eraseDups_append]
      by_cases h : x ∈ xs <;> simp [meet, h, List.removeAll, List.eraseDups_cons]

omit [DecidableEq β] in
/-- A list whose repetitions are erased has none. -/
theorem nodup_eraseDups (xs : List β) : xs.eraseDups.Nodup := by
  induction xs using List.reverseRecOn with
  | nil => exact List.nodup_nil
  | append_singleton xs x ih =>
      rw [List.eraseDups_append]
      by_cases h : x ∈ xs
      · simpa [h, List.removeAll] using ih
      · simpa [h, List.removeAll, List.eraseDups_cons, List.nodup_append] using
          ⟨ih, fun a ha hax => h (hax ▸ ha)⟩

end

namespace CallGraph

variable {g g' : CallGraph}

/-! ### The relations counted -/

/-- A call has the class it resolves to when that lies in the packages. -/
theorem projectClass_eq_some_iff {r : ClassResolver} {p : ProjectPackages} {identifier k : String} :
    projectClass r p identifier = some k ↔
      r.resolve (some identifier) = some k ∧ p.contains (some k) = true :=
  Option.filter_eq_some_iff

/-- The calls within a set of packages are those of the callers in it. -/
theorem mem_callsWithin {p : ProjectPackages} {call : ProjectCall} :
    call ∈ g.callsWithin p ↔
      ∃ caller, g.Calls caller call.callee ∧ projectClass (.ofGraph g) p caller = some call.caller ∧
        call.target = projectClass (.ofGraph g) p call.callee := by
  simp only [callsWithin, List.mem_flatMap, mem_callers]
  constructor
  · rintro ⟨caller, -, hcall⟩
    cases hk : projectClass (.ofGraph g) p caller with
    | none => simp [hk] at hcall
    | some k =>
        simp only [hk] at hcall
        obtain ⟨callee, hcallee, rfl⟩ := List.mem_map.mp hcall
        exact ⟨caller, mem_calleesOf.mp hcallee, hk, rfl⟩
  · rintro ⟨caller, hcalls, hk, htarget⟩
    refine ⟨caller, hcalls.mem_keys, ?_⟩
    simp only [hk]
    exact List.mem_map.mpr ⟨call.callee, mem_calleesOf.mpr hcalls, by rw [← htarget]⟩

/-- **The relations counted** are those that a call makes between two different project
classes. -/
theorem mem_relationsWithin {p : ProjectPackages} {pair : ClassPair} {callee : String} :
    (pair, callee) ∈ g.relationsWithin p ↔
      ∃ caller k k', g.Calls caller callee ∧ projectClass (.ofGraph g) p caller = some k ∧
        projectClass (.ofGraph g) p callee = some k' ∧ k ≠ k' ∧ canonicalPair k k' = pair := by
  rw [relationsWithin, List.mem_eraseDups, List.mem_filterMap]
  constructor
  · rintro ⟨call, hcall, hrelation⟩
    obtain ⟨caller, hcalls, hk, htarget⟩ := mem_callsWithin.mp hcall
    cases hk' : call.target with
    | none => simp [relationOf, hk'] at hrelation
    | some k' =>
        by_cases hself : k' = call.caller
        · simp [relationOf, hk', hself] at hrelation
        · simp only [relationOf, hk', if_neg hself, Option.some.injEq, Prod.mk.injEq] at hrelation
          obtain ⟨hpair, rfl⟩ := hrelation
          exact ⟨caller, call.caller, k', hcalls, hk, htarget.symm.trans hk', Ne.symm hself, hpair⟩
  · rintro ⟨caller, k, k', hcalls, hk, hk', hne, rfl⟩
    refine ⟨⟨k, callee, some k'⟩, mem_callsWithin.mpr ⟨caller, hcalls, hk, hk'.symm⟩, ?_⟩
    simp [relationOf, Ne.symm hne]

/-- The relations met after a call from a class. -/
def meetCall (r : ClassResolver) (p : ProjectPackages) (k : String) (met : List Relation)
    (callee : String) : List Relation :=
  match relationOf ⟨k, callee, projectClass r p callee⟩ with
  | none => met
  | some relation => meet met relation

/-- A call that is met twice counts once. -/
theorem meetCall_meetCall (r : ClassResolver) (p : ProjectPackages) (k : String)
    (met : List Relation) (callee : String) :
    meetCall r p k (meetCall r p k met callee) callee = meetCall r p k met callee := by
  unfold meetCall
  split
  · rfl
  · exact meet_meet _ _

/-- The relations are met in a pass over the callers in increasing order and the set of callees
of each. -/
theorem relationsWithin_eq_foldl (g : CallGraph) (p : ProjectPackages) :
    g.relationsWithin p = g.callers.foldl (fun met caller =>
      match projectClass (.ofGraph g) p caller with
      | none => met
      | some k => (Text.members (g.getD caller [])).foldl (meetCall (.ofGraph g) p k) met) [] := by
  rw [relationsWithin, eraseDups_eq_foldl, callsWithin, List.filterMap_flatMap, List.foldl_flatMap]
  congr 1
  funext met caller
  cases hk : projectClass (.ofGraph g) p caller with
  | none => rfl
  | some k =>
      simp only [List.filterMap_map, List.foldl_filterMap]
      rw [Text.members, Text.foldl_eraseReps (meetCall_meetCall (.ofGraph g) p k)]
      congr 1
      funext met callee
      simp only [meetCall, Function.comp_apply]
      split <;> simp_all

/-- Graphs with the same calls meet the same relations in the same order. -/
theorem SameCalls.relationsWithin_eq (h : SameCalls g g') (p : ProjectPackages) :
    g.relationsWithin p = g'.relationsWithin p := by
  simp only [relationsWithin_eq_foldl, h.callers_eq, h.ofGraph_eq, h.members_callees_eq]

/-! ### The table of a call graph -/

/-- Two project classes are **coupled by** an identifier when a method of one of them calls it
and it belongs to the other. -/
def CoupledBy (g : CallGraph) (a b callee : String) : Prop :=
  let classOf := (ClassResolver.ofGraph g).resolve
  let project := ProjectPackages.detect g
  ∃ caller k k', g.Calls caller callee ∧ classOf (some caller) = some k ∧
    classOf (some callee) = some k' ∧ k ≠ k' ∧ ({k, k'} : Set String) = {a, b} ∧
    project.contains (some k) = true ∧ project.contains (some k') = true

/-- The relations counted for a pair name the identifiers that couple it. -/
theorem mem_relationsWithin_detect {a b callee : String} :
    ((a, b), callee) ∈ g.relationsWithin (ProjectPackages.detect g) ↔
      a < b ∧ g.CoupledBy a b callee := by
  rw [mem_relationsWithin]
  constructor
  · rintro ⟨caller, k, k', hcalls, hk, hk', hne, hpair⟩
    obtain ⟨hk, hproject⟩ := projectClass_eq_some_iff.mp hk
    obtain ⟨hk', hproject'⟩ := projectClass_eq_some_iff.mp hk'
    obtain ⟨hlt, hset⟩ := (canonicalPair_eq_iff hne).mp hpair
    exact ⟨hlt, caller, k, k', hcalls, hk, hk', hne, hset, hproject, hproject'⟩
  · rintro ⟨hlt, caller, k, k', hcalls, hk, hk', hne, hset, hproject, hproject'⟩
    exact ⟨caller, k, k', hcalls, projectClass_eq_some_iff.mpr ⟨hk, hproject⟩,
      projectClass_eq_some_iff.mpr ⟨hk', hproject'⟩, hne,
      (canonicalPair_eq_iff hne).mpr ⟨hlt, hset⟩⟩

/-- No relation of a graph is listed twice. -/
theorem nodup_relationsWithin (g : CallGraph) (p : ProjectPackages) : (g.relationsWithin p).Nodup :=
  nodup_eraseDups _

/-- Only callees couple classes. -/
theorem finite_coupledBy (g : CallGraph) (a b : String) : {c | g.CoupledBy a b c}.Finite := by
  refine (List.finite_toSet (g.entries.flatMap Prod.snd)).subset ?_
  rintro c ⟨caller, k, k', ⟨callees, hentry, hc⟩, -⟩
  exact List.mem_flatMap.mpr ⟨_, hentry, hc⟩

end CallGraph

/-- **The table of a call graph.** Whatever packages are held, they are replaced by those of
the graph. A pair is a key exactly when its classes are in increasing order and some identifier
couples them, and its count is the number of these identifiers. Graphs with the same calls have
the same table, in the same order. -/
theorem countCallsIn_eq_couplings (held : ProjectPackages) (g : CallGraph) :
    let table := (countCallsIn held g).1
    (countCallsIn held g).2 = ProjectPackages.detect g ∧
    (∀ a b, {c | g.CoupledBy a b c}.Finite ∧
      ((a, b) ∈ table.keys ↔ a < b ∧ ∃ c, g.CoupledBy a b c) ∧
      ∀ n, table.get? (a, b) = some n → n = {c | g.CoupledBy a b c}.ncard) ∧
    ∀ held' g', g.SameCalls g' → countCallsIn held' g' = countCallsIn held g := by
  intro table
  have htable : table = tally (g.relationsWithin (.detect g)) := by
    simp only [table, countCallsIn, ProjectPackages.redetect_eq_detect]
  have hkeys : ∀ a b, (a, b) ∈ table.keys ↔ a < b ∧ ∃ c, g.CoupledBy a b c := by
    intro a b
    simp only [htable, mem_keys_tally, CallGraph.mem_relationsWithin_detect, exists_and_left]
  refine ⟨ProjectPackages.redetect_eq_detect held g, fun a b =>
    ⟨g.finite_coupledBy a b, hkeys a b, fun n hn => ?_⟩, fun held' g' h => ?_⟩
  · have hlt : a < b :=
      ((hkeys a b).mp (OrderedMap.isSome_get?_iff.mp (by rw [hn]; rfl))).1
    have hset : {c | ((a, b), c) ∈ g.relationsWithin (.detect g)} = {c | g.CoupledBy a b c} :=
      Set.ext fun c => CallGraph.mem_relationsWithin_detect.trans (and_iff_right hlt)
    rw [htable, get?_tally, length_relationsOf (g.nodup_relationsWithin _), hset] at hn
    split at hn
    · cases hn
    · exact (Option.some.inj hn).symm
  · rw [countCallsIn, countCallsIn, h.redetect_eq held held', h.relationsWithin_eq]

/-- Two methods of one class call `p.B.run`, one of them twice, and `p.B` calls back. The pair
counts two identifiers, also when the callers are listed the other way round and packages of an
earlier analysis are held. -/
theorem countCallsIn_eq_couplings_of_repeated_calls :
    let g : CallGraph :=
      .ofList [("p.A.f", ["p.B.run", "p.B.run"]), ("p.A.g", ["p.B.run"]), ("p.B.run", ["p.A.f"])]
    let g' : CallGraph :=
      .ofList [("p.B.run", ["p.A.f"]), ("p.A.g", ["p.B.run"]), ("p.A.f", ["p.B.run"])]
    g.SameCalls g' ∧
      (countCallsIn (.ofList ["q"]) g').1.entries = [(("p.A", "p.B"), 2)] ∧
      {c | g.CoupledBy "p.A" "p.B" c}.ncard = 2 := by
  intro g g'
  have hsame : g.SameCalls g' := by
    intro caller
    simp only [g, g', OrderedMap.ofList, List.foldl_cons, List.foldl_nil, OrderedMap.get?_insert]
    split_ifs <;> subst_vars <;> simp_all
  obtain ⟨-, htable, hcongr⟩ := countCallsIn_eq_couplings .none g
  have hentries : (countCallsIn .none g).1.entries = [(("p.A", "p.B"), 2)] := by cbv
  have hget : (countCallsIn .none g).1.get? ("p.A", "p.B") = some 2 := by cbv
  refine ⟨hsame, ?_, ?_⟩
  · rw [hcongr _ g' hsame, hentries]
  · exact_mod_cast ((htable "p.A" "p.B").2.2 2 hget).symm

end Linkage
