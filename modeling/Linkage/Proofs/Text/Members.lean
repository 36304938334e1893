import Mathlib
import Linkage.Text.Sorted

/-!
# Sorted text as sets

A set of strings is written in one way only: its members in increasing order, each once. So two
lists with the same members have the same `Text.members`, and a list that is strictly
increasing is its own set.

## Main results

* `pairwise_members`: the members of a list are strictly increasing.
* `mem_members`: they are the elements of the list.
* `members_congr`: lists with the same elements have the same members.
* `find?_sorted_eq_some_iff`: what is found first in a sorted list is the least of what could
  be found.
* `foldl_eraseReps`: a pass over a list does not see repetitions when a repeated step changes
  nothing.
-/

namespace Linkage.Text

/-! ### Sorting with repetitions -/

/-- Sorting keeps the elements. -/
theorem sorted_perm (xs : List String) : (sorted xs).Perm xs :=
  List.mergeSort_perm xs _

/-- A sorted list has the elements of the list. -/
theorem mem_sorted {a : String} {xs : List String} : a ∈ sorted xs ↔ a ∈ xs :=
  (sorted_perm xs).mem_iff

/-- A sorted list is in order. -/
theorem pairwise_sorted (xs : List String) : (sorted xs).Pairwise (· ≤ ·) := by
  have h := @List.pairwise_mergeSort String (fun a b => decide (a ≤ b))
    (fun a b c hab hbc => by
      rw [decide_eq_true_eq] at hab hbc ⊢
      exact le_trans hab hbc)
    (fun a b => by
      rw [Bool.or_eq_true, decide_eq_true_eq, decide_eq_true_eq]
      exact le_total a b) xs
  exact h.imp fun hab => of_decide_eq_true hab

/-- The sorted form does not depend on the order of a list. -/
theorem sorted_congr {xs ys : List String} (h : xs.Perm ys) : sorted xs = sorted ys :=
  List.Perm.eq_of_pairwise (fun _ _ _ _ hab hba => le_antisymm hab hba)
    (pairwise_sorted xs) (pairwise_sorted ys)
    ((sorted_perm xs).trans (h.trans (sorted_perm ys).symm))

/-- What is found first in a sorted list is the least of what could be found. -/
theorem find?_sorted_eq_some_iff {p : String → Bool} {xs : List String} {a : String} :
    (sorted xs).find? p = some a ↔ a ∈ xs ∧ p a = true ∧ ∀ b ∈ xs, p b = true → a ≤ b := by
  have hsorted := pairwise_sorted xs
  simp only [← @mem_sorted _ xs]
  constructor
  · intro hfind
    obtain ⟨ha, earlier, later, hsplit, hearlier⟩ := List.find?_eq_some_iff_append.mp hfind
    refine ⟨by simp [hsplit], ha, fun b hb hpb => ?_⟩
    rw [hsplit] at hb hsorted
    rcases List.mem_append.mp hb with hb | hb
    · simpa [hpb] using hearlier b hb
    · rcases List.mem_cons.mp hb with rfl | hb
      · exact le_refl _
      · exact List.rel_of_pairwise_cons (List.pairwise_append.mp hsorted).2.1 hb
  · rintro ⟨hmem, ha, hleast⟩
    obtain ⟨b, hfind⟩ := Option.isSome_iff_exists.mp (List.find?_isSome.mpr ⟨a, hmem, ha⟩)
    obtain ⟨hb, earlier, later, hsplit, hearlier⟩ := List.find?_eq_some_iff_append.mp hfind
    have hba : b ≤ a := by
      rw [hsplit] at hmem hsorted
      rcases List.mem_append.mp hmem with hmem | hmem
      · simpa [ha] using hearlier a hmem
      · rcases List.mem_cons.mp hmem with rfl | hmem
        · exact le_refl _
        · exact List.rel_of_pairwise_cons (List.pairwise_append.mp hsorted).2.1 hmem
    rw [hfind, le_antisymm hba (hleast b (by simp [hsplit]) hb)]

/-! ### Dropping repetitions -/

/-- The loop that skips repetitions puts what it yields behind what it has. -/
theorem eraseRepsBy_loop_eq_append {β : Type} (r : β → β → Bool) (as : List β) :
    ∀ (a : β) (acc : List β),
      List.eraseRepsBy.loop r a as acc = acc.reverse ++ List.eraseRepsBy r (a :: as) := by
  induction as with
  | nil =>
      intro a acc
      simp [List.eraseRepsBy, List.eraseRepsBy.loop]
  | cons b rest ih =>
      intro a acc
      simp only [List.eraseRepsBy, List.eraseRepsBy.loop]
      cases r a b with
      | true => exact ih a acc
      | false =>
          simp only
          rw [ih b (a :: acc), ih b [a]]
          simp

/-- An element that is repeated at once is dropped; any other is kept. -/
theorem eraseReps_cons_cons (a b : String) (rest : List String) :
    (a :: b :: rest).eraseReps =
      if a = b then (a :: rest).eraseReps else a :: (b :: rest).eraseReps := by
  by_cases h : a = b
  · subst h
    simp [List.eraseReps, List.eraseRepsBy, List.eraseRepsBy.loop]
  · have hb : (a == b) = false := by simpa using h
    rw [if_neg h]
    simp only [List.eraseReps, List.eraseRepsBy, List.eraseRepsBy.loop, hb]
    rw [eraseRepsBy_loop_eq_append]
    rfl

/-- Dropping repetitions keeps the elements, and turns a list that does not fall into one that
rises strictly from its first element on. -/
theorem eraseReps_of_pairwise_le {a : String} {rest : List String}
    (h : (a :: rest).Pairwise (· ≤ ·)) :
    (∀ x, x ∈ (a :: rest).eraseReps ↔ x ∈ a :: rest) ∧
      (a :: rest).eraseReps.Pairwise (· < ·) := by
  induction rest generalizing a with
  | nil => simp [List.eraseReps, List.eraseRepsBy, List.eraseRepsBy.loop]
  | cons b rest ih =>
      obtain ⟨ha, hb⟩ := List.pairwise_cons.mp h
      rw [eraseReps_cons_cons]
      by_cases hab : a = b
      · subst hab
        rw [if_pos rfl]
        obtain ⟨hmem, hlt⟩ := ih hb
        refine ⟨fun x => ?_, hlt⟩
        rw [hmem x]
        simp
      · rw [if_neg hab]
        obtain ⟨hmem, hlt⟩ := ih hb
        refine ⟨fun x => ?_, ?_⟩
        · rw [List.mem_cons, hmem x, List.mem_cons]
          simp
        · refine List.pairwise_cons.mpr ⟨fun x hx => ?_, hlt⟩
          have hbx : b ≤ x := by
            rcases List.mem_cons.mp ((hmem x).mp hx) with rfl | hx
            · exact le_refl _
            · exact (List.pairwise_cons.mp hb).1 x hx
          exact lt_of_lt_of_le (lt_of_le_of_ne (ha b (by simp)) hab) hbx

/-- A pass over a list does not see repetitions when a repeated step changes nothing. -/
theorem foldl_eraseReps {σ : Type} {step : σ → String → σ}
    (h : ∀ s a, step (step s a) a = step s a) (xs : List String) (s : σ) :
    xs.eraseReps.foldl step s = xs.foldl step s := by
  cases xs with
  | nil => rfl
  | cons a rest =>
      induction rest generalizing a s with
      | nil => rfl
      | cons b rest ih =>
          rw [eraseReps_cons_cons]
          by_cases hab : a = b
          · subst hab
            rw [if_pos rfl, ih]
            simp only [List.foldl_cons, h]
          · rw [if_neg hab, List.foldl_cons, ih]
            rfl

/-! ### Sets -/

/-- A set has the elements of the list that it is taken from. -/
theorem mem_members {a : String} {xs : List String} : a ∈ members xs ↔ a ∈ xs := by
  rw [members, ← @mem_sorted a xs]
  cases h : sorted xs with
  | nil => rfl
  | cons b rest => exact (eraseReps_of_pairwise_le (h ▸ pairwise_sorted xs)).1 a

/-- The members of a set are strictly increasing. -/
theorem pairwise_members (xs : List String) : (members xs).Pairwise (· < ·) := by
  rw [members]
  cases h : sorted xs with
  | nil => exact List.Pairwise.nil
  | cons b rest => exact (eraseReps_of_pairwise_le (h ▸ pairwise_sorted xs)).2

/-- No member is listed twice. -/
theorem nodup_members (xs : List String) : (members xs).Nodup :=
  (pairwise_members xs).imp fun h => ne_of_lt h

/-- A strictly increasing list is determined by its elements. -/
theorem eq_of_pairwise_lt {xs ys : List String} (hx : xs.Pairwise (· < ·))
    (hy : ys.Pairwise (· < ·)) (h : ∀ a, a ∈ xs ↔ a ∈ ys) : xs = ys := by
  have hperm : xs.Perm ys :=
    (List.perm_ext_iff_of_nodup (hx.imp fun h => ne_of_lt h) (hy.imp fun h => ne_of_lt h)).mpr h
  exact List.Perm.eq_of_pairwise (fun _ _ _ _ hab hba => absurd hba (not_lt_of_gt hab)) hx hy hperm

/-- Lists with the same elements have the same members. -/
theorem members_congr {xs ys : List String} (h : ∀ a, a ∈ xs ↔ a ∈ ys) :
    members xs = members ys :=
  eq_of_pairwise_lt (pairwise_members xs) (pairwise_members ys) fun a => by
    rw [mem_members, mem_members, h a]

/-- A strictly increasing list is its own set. -/
theorem members_of_pairwise_lt {xs : List String} (h : xs.Pairwise (· < ·)) :
    members xs = xs :=
  eq_of_pairwise_lt (pairwise_members xs) h fun _ => mem_members

/-- The set of a list without repetitions is the list in another order. -/
theorem members_perm {xs : List String} (h : xs.Nodup) : (members xs).Perm xs :=
  (List.perm_ext_iff_of_nodup (nodup_members xs) h).mpr fun _ => mem_members

end Linkage.Text
