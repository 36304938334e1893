import Mathlib
import Linkage.BisectionSort

/-!
# Sorting by bisection under a linear order

Elements are compared by a key of a linear order. Then the run at the beginning of a list does
not fall once it has been turned round, bisection finds the place before the first element that
is greater, and an element inserted there leaves the list in order. So the outcome is in order,
and it does not depend on the order in which the elements were given unless different elements
have equal keys.

## Main results

* `place?_parts`: what stands on either side of the place that bisection finds.
* `pairwise_of_sort?`: the outcome is in order.
* `sort?_eq_of_perm`: lists with the same elements are sorted alike.
-/

namespace Linkage.BisectionSort

variable {α κ : Type} [LinearOrder κ] {less? : α → α → Option Bool} {key : α → κ} {p : α → Prop}
  (h : ∀ x y, p x → p y → less? x y = some (decide (key x < key y)))

include h

/-! ### The run at the beginning -/

/-- A rising run rises by the keys. -/
theorem pairwise_of_risingRun? {last : α} {xs : List α} {r : List α × List α} (hlast : p last)
    (hxs : ∀ x ∈ xs, p x) (hr : risingRun? less? last xs = some r) :
    (last :: r.1).Pairwise (key · ≤ key ·) := by
  induction xs generalizing last r with
  | nil =>
      obtain rfl := Option.some.inj hr
      exact List.pairwise_singleton _ _
  | cons x rest ih =>
      rw [List.forall_mem_cons] at hxs
      rw [risingRun?, h x last hxs.1 hlast] at hr
      cases hless : decide (key x < key last) with
      | true =>
          rw [hless] at hr
          obtain rfl := Option.some.inj hr
          exact List.pairwise_singleton _ _
      | false =>
          rw [hless] at hr
          obtain ⟨s, hs, rfl⟩ := Option.map_eq_some_iff.mp hr
          have hle : key last ≤ key x := not_lt.mp (of_decide_eq_false hless)
          have hrest := ih hxs.1 hxs.2 hs
          refine List.pairwise_cons.mpr ⟨fun y hy => ?_, hrest⟩
          rcases List.mem_cons.mp hy with rfl | hy
          · exact hle
          · exact hle.trans (List.rel_of_pairwise_cons hrest hy)

/-- A falling run falls by the keys. -/
theorem pairwise_of_fallingRun? {last : α} {xs : List α} {r : List α × List α} (hlast : p last)
    (hxs : ∀ x ∈ xs, p x) (hr : fallingRun? less? last xs = some r) :
    (last :: r.1).Pairwise (key · ≥ key ·) := by
  induction xs generalizing last r with
  | nil =>
      obtain rfl := Option.some.inj hr
      exact List.pairwise_singleton _ _
  | cons x rest ih =>
      rw [List.forall_mem_cons] at hxs
      rw [fallingRun?, h x last hxs.1 hlast] at hr
      cases hless : decide (key x < key last) with
      | false =>
          rw [hless] at hr
          obtain rfl := Option.some.inj hr
          exact List.pairwise_singleton _ _
      | true =>
          rw [hless] at hr
          obtain ⟨s, hs, rfl⟩ := Option.map_eq_some_iff.mp hr
          have hle : key x ≤ key last := (of_decide_eq_true hless).le
          have hrest := ih hxs.1 hxs.2 hs
          refine List.pairwise_cons.mpr ⟨fun y hy => ?_, hrest⟩
          rcases List.mem_cons.mp hy with rfl | hy
          · exact hle
          · exact (List.rel_of_pairwise_cons hrest hy).trans hle

/-- **The run at the beginning is in order**, turned round if it falls. -/
theorem pairwise_of_leadingRun? {xs : List α} {r : List α × List α} (hxs : ∀ x ∈ xs, p x)
    (hr : leadingRun? less? xs = some r) : r.1.Pairwise (key · ≤ key ·) := by
  match xs with
  | [] =>
      obtain rfl := Option.some.inj hr
      exact List.Pairwise.nil
  | [x] =>
      obtain rfl := Option.some.inj hr
      exact List.pairwise_singleton _ _
  | x :: y :: rest =>
      rw [List.forall_mem_cons, List.forall_mem_cons] at hxs
      obtain ⟨hx, hy, hrest⟩ := hxs
      rw [leadingRun?, h y x hy hx] at hr
      cases hless : decide (key y < key x) with
      | true =>
          rw [hless] at hr
          obtain ⟨s, hs, rfl⟩ := Option.map_eq_some_iff.mp hr
          have hle : key y ≤ key x := (of_decide_eq_true hless).le
          have hfall := pairwise_of_fallingRun? h hy hrest hs
          rw [List.pairwise_reverse]
          refine List.pairwise_cons.mpr ⟨fun z hz => ?_, hfall⟩
          rcases List.mem_cons.mp hz with rfl | hz
          · exact hle
          · exact (List.rel_of_pairwise_cons hfall hz).trans hle
      | false =>
          rw [hless] at hr
          obtain ⟨s, hs, rfl⟩ := Option.map_eq_some_iff.mp hr
          have hle : key x ≤ key y := not_lt.mp (of_decide_eq_false hless)
          have hrise := pairwise_of_risingRun? h hy hrest hs
          refine List.pairwise_cons.mpr ⟨fun z hz => ?_, hrise⟩
          rcases List.mem_cons.mp hz with rfl | hz
          · exact hle
          · exact hle.trans (List.rel_of_pairwise_cons hrise hz)

/-! ### Insertion by bisection -/

/-- **What stands on either side** of the place that bisection finds: nothing greater before
it, and only what is greater from it on. Induction on the search; the invariant is that this
holds outside the two places between which it goes on. -/
theorem place?_parts {x : α} {xs : List α} (hx : p x) (hxs : ∀ y ∈ xs, p y)
    (hsorted : xs.Pairwise (key · ≤ key ·)) {lo hi k : ℕ} (hhi : hi ≤ xs.length)
    (hbefore : ∀ y ∈ xs.take lo, key y ≤ key x) (hafter : ∀ y ∈ xs.drop hi, key x < key y)
    (hle : lo ≤ hi) (hk : place? less? x xs lo hi = some k) :
    (∀ y ∈ xs.take k, key y ≤ key x) ∧ ∀ y ∈ xs.drop k, key x < key y := by
  fun_induction place? less? x xs lo hi with
  | case1 lo hi hlt middle hnone =>
      have hlength : xs.length ≤ middle := List.getElem?_eq_none_iff.mp hnone
      have hmiddle : middle < hi := by omega
      omega
  | case2 => cases hk
  | case3 lo hi hlt middle y hy hless ih =>
      obtain ⟨hm, hym⟩ := List.getElem?_eq_some_iff.mp hy
      rw [h x y hx (hxs y (List.mem_of_getElem? hy)), Option.some.injEq, decide_eq_true_eq] at hless
      refine ih (by omega) hbefore ?_ (by omega) hk
      rw [List.drop_eq_getElem_cons hm, hym]
      have hdrop := hsorted.sublist (List.drop_sublist middle xs)
      rw [List.drop_eq_getElem_cons hm, hym] at hdrop
      intro z hz
      rcases List.mem_cons.mp hz with rfl | hz
      · exact hless
      · exact hless.trans_le (List.rel_of_pairwise_cons hdrop hz)
  | case4 lo hi hlt middle y hy hless ih =>
      obtain ⟨hm, hym⟩ := List.getElem?_eq_some_iff.mp hy
      rw [h x y hx (hxs y (List.mem_of_getElem? hy)), Option.some.injEq, decide_eq_false_iff_not,
        not_lt] at hless
      refine ih hhi ?_ hafter (by omega) hk
      have htake := hsorted.sublist (List.take_sublist (middle + 1) xs)
      rw [List.take_succ_eq_append_getElem hm, hym, List.pairwise_append] at htake
      intro z hz
      rw [List.take_succ_eq_append_getElem hm, hym, List.mem_append, List.mem_singleton] at hz
      rcases hz with hz | rfl
      · exact (htake.2.2 z hz y (List.mem_singleton_self y)).trans hless
      · exact hless
  | case5 lo hi hlt =>
      obtain rfl := Option.some.inj hk
      obtain rfl : lo = hi := by omega
      exact ⟨hbefore, hafter⟩

/-- **Insertion** leaves a list in order. -/
theorem pairwise_of_insert? {x : α} {xs ys : List α} (hx : p x) (hxs : ∀ y ∈ xs, p y)
    (hsorted : xs.Pairwise (key · ≤ key ·)) (hys : insert? less? xs x = some ys) :
    ys.Pairwise (key · ≤ key ·) := by
  obtain ⟨k, hk, rfl⟩ := Option.map_eq_some_iff.mp hys
  obtain ⟨hbefore, hafter⟩ := place?_parts h hx hxs hsorted le_rfl (by simp) (by simp)
    (Nat.zero_le _) hk
  rw [List.pairwise_append, List.pairwise_cons]
  refine ⟨hsorted.sublist (List.take_sublist k xs),
    ⟨fun y hy => (hafter y hy).le, hsorted.sublist (List.drop_sublist k xs)⟩, fun y hy z hz => ?_⟩
  rcases List.mem_cons.mp hz with rfl | hz
  · exact hbefore y hy
  · exact (hbefore y hy).trans (hafter z hz).le

/-- Elements that are inserted into a sorted list leave it sorted. -/
theorem pairwise_of_insertAll? {xs ys zs : List α} (hxs : ∀ x ∈ xs, p x) (hys : ∀ y ∈ ys, p y)
    (hsorted : xs.Pairwise (key · ≤ key ·)) (hzs : insertAll? less? xs ys = some zs) :
    zs.Pairwise (key · ≤ key ·) := by
  induction ys generalizing xs with
  | nil =>
      obtain rfl := Option.some.inj hzs
      exact hsorted
  | cons y rest ih =>
      rw [List.forall_mem_cons] at hys
      obtain ⟨ws, hws, hzs⟩ := Option.bind_eq_some_iff.mp hzs
      refine ih (fun w hw => ?_) hys.2 (pairwise_of_insert? h hys.1 hxs hsorted hws) hzs
      rcases List.mem_cons.mp ((perm_of_insert?_eq_some hws).mem_iff.mp hw) with rfl | hw
      · exact hys.1
      · exact hxs w hw

/-! ### The outcome -/

/-- **The outcome is in order.** -/
theorem pairwise_of_sort? {xs ys : List α} (hxs : ∀ x ∈ xs, p x) (hys : sort? less? xs = some ys) :
    ys.Pairwise (key · ≤ key ·) := by
  obtain ⟨r, hr, hys⟩ := Option.bind_eq_some_iff.mp hys
  have hmem : ∀ x ∈ r.1 ++ r.2, p x := fun x hx =>
    hxs x ((perm_of_leadingRun?_eq_some hr).mem_iff.mp hx)
  exact pairwise_of_insertAll? h (fun x hx => hmem x (List.mem_append_left _ hx))
    (fun x hx => hmem x (List.mem_append_right _ hx)) (pairwise_of_leadingRun? h hxs hr) hys

/-- **Lists with the same elements are sorted alike** when equal keys belong to
equal elements. -/
theorem sort?_eq_of_perm {xs ys : List α} (hkey : ∀ x y, p x → p y → key x = key y → x = y)
    (hxs : ∀ x ∈ xs, p x) (hperm : xs.Perm ys) :
    ∃ zs, sort? less? xs = some zs ∧ sort? less? ys = some zs := by
  have hcomparable : ∀ x y, p x → p y → ∃ b, less? x y = some b := fun x y hx hy => ⟨_, h x y hx hy⟩
  have hys : ∀ y ∈ ys, p y := fun y hy => hxs y (hperm.mem_iff.mpr hy)
  obtain ⟨zs, hzs⟩ := exists_sort?_eq_some hcomparable hxs
  obtain ⟨ws, hws⟩ := exists_sort?_eq_some hcomparable hys
  have hzx : zs.Perm xs := perm_of_sort?_eq_some hzs
  have hwy : ws.Perm ys := perm_of_sort?_eq_some hws
  have hsame : zs = ws := List.Perm.eq_of_pairwise
    (fun a b ha hb hab hba => hkey a b (hxs a (hzx.mem_iff.mp ha)) (hys b (hwy.mem_iff.mp hb))
      (le_antisymm hab hba))
    (pairwise_of_sort? h hxs hzs) (pairwise_of_sort? h hys hws)
    (hzx.trans (hperm.trans hwy.symm))
  exact ⟨zs, hzs, hsame ▸ hws⟩

end Linkage.BisectionSort
