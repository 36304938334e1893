import Mathlib
import Linkage.CallGraph.Document
import Linkage.Proofs.CallGraph.SameCalls

/-!
# Call graphs from documents

A document gives the callees of each caller under the name of the caller. As names do not
repeat, the call graph has the entries of the document in their order.

## Main results

* `CallGraph.ofValue_record`: the call graph of a document whose values list callees.
-/

namespace Linkage.CallGraph

variable {ν : Type} {value : ν → Value Float} {items : ν → List (Value Float)}

/-- Entries whose values list callees are added one after the other. -/
theorem addEntries_eq_ok (h : ∀ x, calleeItems? (value x) = some (items x)) (es : List (String × ν))
    (g : CallGraph) :
    addEntries g (es.map fun e => (.text e.1, value e.2)) =
      .ok (es.foldl (fun g e => g.insert e.1 ((items e.2).filterMap calleeOf?)) g) := by
  induction es generalizing g with
  | nil => rfl
  | cons e rest ih =>
      rw [List.map_cons, addEntries, h, List.foldl_cons]
      exact ih _

/-- **The call graph of a document** whose values list callees has its entries, in
their order. -/
theorem ofValue_record (h : ∀ x, calleeItems? (value x) = some (items x))
    (m : OrderedMap String ν) :
    ofValue (.record (m.mapValues value).entries) =
      .ok (m.mapValues fun x => (items x).filterMap calleeOf?) := by
  have hentries : (m.mapValues value).entries.map (fun f => ((.text f.1 : Value Float), f.2)) =
      m.entries.map fun e => (.text e.1, value e.2) := by
    simp [OrderedMap.mapValues]
  rw [Value.record, hentries, ofValue, addEntries_eq_ok h]
  refine congrArg Except.ok (Eq.trans ?_ (OrderedMap.ofList_entries _))
  rw [OrderedMap.ofList, OrderedMap.mapValues, List.foldl_map]

end Linkage.CallGraph
