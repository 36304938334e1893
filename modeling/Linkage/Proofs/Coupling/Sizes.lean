import Mathlib
import Linkage.Proofs.Coupling.Consistent

/-!
# How large the counts of a call graph are

A call graph that fits into memory has tables of bounded length, which bounds the number of its
calls, so the sum of its counts and the number of its classes.

## Main results

* `CallGraph.FitsMemory.totalCalls_le`: the sum of the counts.
* `CallGraph.FitsMemory.length_classesIn_le`: the number of classes.
-/

namespace Linkage

/-- A call graph **fits into memory** when its tables have no more entries than there is room
for: the largest size of a table is below `2 ^ 63` bytes, and an entry takes eight of them. -/
structure CallGraph.FitsMemory (g : CallGraph) : Prop where
  /-- The number of callers. -/
  callers_le : g.size ≤ 2 ^ 60
  /-- The number of callees of a caller. -/
  callees_le : ∀ callees ∈ g.values, callees.length ≤ 2 ^ 60

/-- A list without repetitions is no longer than a list that has all its elements. -/
theorem length_le_of_subset {β : Type} {xs ys : List β} (hnodup : xs.Nodup) (h : xs ⊆ ys) :
    xs.length ≤ ys.length :=
  (List.subperm_of_subset hnodup h).length_le

/-- Positive counts add up to at least their number. -/
theorem length_keys_le_totalCalls {counts : CouplingCounts} (hpos : ∀ n ∈ counts.values, 0 < n) :
    (counts.keys.length : ℤ) ≤ totalCalls counts := by
  have hsum := List.card_nsmul_le_sum counts.values 1 hpos
  rw [← totalCalls_eq_sum, nsmul_one] at hsum
  simpa [OrderedMap.keys, OrderedMap.values] using hsum

/-- A table has at most two classes for each of its pairs. -/
theorem length_classesIn_le {ν : Type} (table : OrderedMap ClassPair ν) :
    (classesIn table).length ≤ 2 * table.keys.length := by
  have hpairs : (table.keys.flatMap fun p => [p.1, p.2]).length = 2 * table.keys.length := by
    simp [List.length_flatMap, Nat.mul_comm]
  rw [← hpairs]
  exact length_le_of_subset (nodup_classesIn table) fun x hx => Text.mem_members.mp hx

namespace CallGraph

variable {g : CallGraph}

/-- A call graph has at most as many calls within the project as its callers have callees. -/
theorem length_callsWithin_le (h : g.FitsMemory) (p : ProjectPackages) :
    (g.callsWithin p).length ≤ g.size * 2 ^ 60 := by
  have hcallees : ∀ caller, (g.calleesOf caller).length ≤ 2 ^ 60 := by
    intro caller
    rw [calleesOf, (Text.sorted_perm _).length_eq, OrderedMap.getD]
    cases hget : g.get? caller with
    | none => exact Nat.zero_le _
    | some callees => exact h.callees_le _ (OrderedMap.mem_values_of_get? hget)
  have hcallers : g.callers.length = g.size := by
    rw [callers, (Text.sorted_perm _).length_eq, OrderedMap.keys, List.length_map, OrderedMap.size]
  rw [callsWithin, List.length_flatMap, ← hcallers]
  refine (List.sum_le_card_nsmul _ (2 ^ 60) fun n hn => ?_).trans_eq
    (by rw [List.length_map, smul_eq_mul])
  obtain ⟨caller, -, rfl⟩ := List.mem_map.mp hn
  split
  · exact Nat.zero_le _
  · exact (List.length_map _).trans_le (hcallees caller)

namespace FitsMemory

variable (h : g.FitsMemory)

include h

/-- **The counts add up** to at most `2 ^ 120`. -/
theorem totalCalls_le : totalCalls (countCalls g) ≤ 2 ^ 120 := by
  have hrelations : (g.relationsWithin (.detect g)).length ≤
      (g.callsWithin (.detect g)).length := by
    refine (length_le_of_subset (g.nodup_relationsWithin _) fun r hr => ?_).trans
      (List.length_filterMap_le relationOf _)
    exact List.mem_eraseDups.mp hr
  have hcalls := g.length_callsWithin_le h (.detect g)
  have hcallers := Nat.mul_le_mul_right (2 ^ 60) h.callers_le
  rw [countCalls_eq_tally, totalCalls_tally]
  norm_num at hcallers hcalls ⊢
  omega

/-- **The classes** are at most `2 ^ 121`. -/
theorem length_classesIn_le : (classesIn (countCalls g)).length ≤ 2 ^ 121 := by
  have hclasses := Linkage.length_classesIn_le (countCalls g)
  have hkeys := length_keys_le_totalCalls fun n hn => pos_of_mem_values_countCalls (g := g) hn
  have htotal := h.totalCalls_le
  norm_num at htotal ⊢
  omega

end FitsMemory

end CallGraph

end Linkage
