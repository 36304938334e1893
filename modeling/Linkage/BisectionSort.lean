/-!
# Sorting by bisection

A list is sorted by insertion. The run at its beginning, as long as it does not fall, is kept
as it is; a run that falls strictly is turned round. Every later element is inserted at the
place that bisection finds for it, after the elements that it does not precede.

Under a linear order this is the stable sort. Under an order in which some elements have no
place, such as that of numbers of which some are undefined, the outcome follows from the
comparisons that are made. An order may refuse to compare two elements, and then there is no
outcome.

## Main results

* `perm_of_sort?_eq_some`, `perm_sort`: a sorted list has the elements of the list.
* `exists_sort?_eq_some`: a list is sorted when all its elements can be compared.
-/

namespace Linkage.BisectionSort

variable {α : Type}

/-- The rest of a run that does not fall, after an element, and what follows the run. -/
def risingRun? (less? : α → α → Option Bool) (last : α) : List α → Option (List α × List α)
  | [] => some ([], [])
  | x :: rest =>
    match less? x last with
    | none => none
    | some true => some ([], x :: rest)
    | some false => (risingRun? less? x rest).map fun r => (x :: r.1, r.2)

/-- The rest of a run that falls strictly, after an element, and what follows the run. -/
def fallingRun? (less? : α → α → Option Bool) (last : α) : List α → Option (List α × List α)
  | [] => some ([], [])
  | x :: rest =>
    match less? x last with
    | none => none
    | some false => some ([], x :: rest)
    | some true => (fallingRun? less? x rest).map fun r => (x :: r.1, r.2)

/-- The run at the beginning of a list, turned round when it falls, and what follows it. -/
def leadingRun? (less? : α → α → Option Bool) : List α → Option (List α × List α)
  | [] => some ([], [])
  | [x] => some ([x], [])
  | x :: y :: rest =>
    match less? y x with
    | none => none
    | some true => (fallingRun? less? y rest).map fun r => ((x :: y :: r.1).reverse, r.2)
    | some false => (risingRun? less? y rest).map fun r => (x :: y :: r.1, r.2)

/-- The place of an element in a list, between two places. -/
def place? (less? : α → α → Option Bool) (x : α) (xs : List α) (lo hi : Nat) : Option Nat :=
  if lo < hi then
    let middle := lo + (hi - lo) / 2
    match xs[middle]? with
    | none => some lo
    | some y =>
      match less? x y with
      | none => none
      | some true => place? less? x xs lo middle
      | some false => place? less? x xs (middle + 1) hi
  else some lo
termination_by hi - lo
decreasing_by all_goals omega

/-- The list with an element inserted at its place. -/
def insert? (less? : α → α → Option Bool) (xs : List α) (x : α) : Option (List α) :=
  (place? less? x xs 0 xs.length).map fun k => xs.take k ++ x :: xs.drop k

/-- The list with the elements of another one inserted, each at its place. -/
def insertAll? (less? : α → α → Option Bool) : List α → List α → Option (List α)
  | xs, [] => some xs
  | xs, y :: ys => (insert? less? xs y).bind fun xs => insertAll? less? xs ys

/-- The **sorted list**; none when two elements that are compared have no order. -/
def sort? (less? : α → α → Option Bool) (xs : List α) : Option (List α) :=
  (leadingRun? less? xs).bind fun r => insertAll? less? r.1 r.2

/-- The sorted list under an order that compares all elements. -/
def sort (less : α → α → Bool) (xs : List α) : List α :=
  (sort? (fun x y => some (less x y)) xs).getD xs

/-- A rising run and what follows it are the list. -/
theorem append_of_risingRun?_eq_some {less? : α → α → Option Bool} {last : α} {xs : List α}
    {r : List α × List α} (h : risingRun? less? last xs = some r) : r.1 ++ r.2 = xs := by
  induction xs generalizing last r with
  | nil => cases h; rfl
  | cons x rest ih =>
    rw [risingRun?] at h
    split at h
    · cases h
    · cases h; rfl
    · obtain ⟨s, hs, rfl⟩ := Option.map_eq_some_iff.1 h
      exact congrArg (x :: ·) (ih hs)

/-- A falling run and what follows it are the list. -/
theorem append_of_fallingRun?_eq_some {less? : α → α → Option Bool} {last : α} {xs : List α}
    {r : List α × List α} (h : fallingRun? less? last xs = some r) : r.1 ++ r.2 = xs := by
  induction xs generalizing last r with
  | nil => cases h; rfl
  | cons x rest ih =>
    rw [fallingRun?] at h
    split at h
    · cases h
    · cases h; rfl
    · obtain ⟨s, hs, rfl⟩ := Option.map_eq_some_iff.1 h
      exact congrArg (x :: ·) (ih hs)

/-- The leading run, which is turned round when it falls, and what follows it are the list in
some order. -/
theorem perm_of_leadingRun?_eq_some {less? : α → α → Option Bool} {xs : List α}
    {r : List α × List α} (h : leadingRun? less? xs = some r) : (r.1 ++ r.2).Perm xs := by
  match xs with
  | [] => cases h; exact .refl _
  | [x] => cases h; exact .refl _
  | x :: y :: rest =>
    rw [leadingRun?] at h
    split at h
    · cases h
    · obtain ⟨s, hs, rfl⟩ := Option.map_eq_some_iff.1 h
      rw [← append_of_fallingRun?_eq_some hs]
      exact (List.reverse_perm _).append_right _
    · obtain ⟨s, hs, rfl⟩ := Option.map_eq_some_iff.1 h
      rw [← append_of_risingRun?_eq_some hs]
      exact .refl _

/-- An insertion adds one element. -/
theorem perm_of_insert?_eq_some {less? : α → α → Option Bool} {xs ys : List α} {x : α}
    (h : insert? less? xs x = some ys) : ys.Perm (x :: xs) := by
  obtain ⟨k, _, rfl⟩ := Option.map_eq_some_iff.1 h
  refine List.perm_middle.trans ?_
  rw [List.take_append_drop]

/-- Inserting the elements of a list adds them all. -/
theorem perm_of_insertAll?_eq_some {less? : α → α → Option Bool} {xs ys zs : List α}
    (h : insertAll? less? xs ys = some zs) : zs.Perm (xs ++ ys) := by
  induction ys generalizing xs with
  | nil => cases h; simp
  | cons y ys ih =>
    obtain ⟨ws, hw, h⟩ := Option.bind_eq_some_iff.1 h
    refine (ih h).trans (((perm_of_insert?_eq_some hw).append_right ys).trans ?_)
    exact List.perm_middle.symm

/-- A list that could be sorted keeps its elements. -/
theorem perm_of_sort?_eq_some {less? : α → α → Option Bool} {xs ys : List α}
    (h : sort? less? xs = some ys) : ys.Perm xs := by
  obtain ⟨r, hr, h⟩ := Option.bind_eq_some_iff.1 h
  exact (perm_of_insertAll?_eq_some h).trans (perm_of_leadingRun?_eq_some hr)

/-- Sorting keeps the elements. -/
theorem perm_sort (less : α → α → Bool) (xs : List α) : (sort less xs).Perm xs := by
  rw [sort]
  cases h : sort? (fun x y => some (less x y)) xs with
  | none => exact .refl _
  | some ys => exact perm_of_sort?_eq_some h

/-! ### Elements that can be compared -/

section Comparable

variable {less? : α → α → Option Bool} {p : α → Prop}
  (h : ∀ x y, p x → p y → ∃ b, less? x y = some b)

include h

/-- Where all elements can be compared, the rising run ends. -/
theorem exists_risingRun?_eq_some {last : α} (hlast : p last) {xs : List α} (hxs : ∀ x ∈ xs, p x) :
    ∃ r, risingRun? less? last xs = some r := by
  induction xs generalizing last with
  | nil => exact ⟨_, rfl⟩
  | cons x rest ih =>
    rw [List.forall_mem_cons] at hxs
    obtain ⟨b, hb⟩ := h _ _ hxs.1 hlast
    obtain ⟨r, hr⟩ := ih hxs.1 hxs.2
    cases b <;> simp [risingRun?, hb, hr]

/-- Where all elements can be compared, the falling run ends. -/
theorem exists_fallingRun?_eq_some {last : α} (hlast : p last) {xs : List α} (hxs : ∀ x ∈ xs, p x) :
    ∃ r, fallingRun? less? last xs = some r := by
  induction xs generalizing last with
  | nil => exact ⟨_, rfl⟩
  | cons x rest ih =>
    rw [List.forall_mem_cons] at hxs
    obtain ⟨b, hb⟩ := h _ _ hxs.1 hlast
    obtain ⟨r, hr⟩ := ih hxs.1 hxs.2
    cases b <;> simp [fallingRun?, hb, hr]

/-- Where all elements can be compared, there is a leading run. -/
theorem exists_leadingRun?_eq_some {xs : List α} (hxs : ∀ x ∈ xs, p x) :
    ∃ r, leadingRun? less? xs = some r := by
  match xs with
  | [] => exact ⟨_, rfl⟩
  | [x] => exact ⟨_, rfl⟩
  | x :: y :: rest =>
    rw [List.forall_mem_cons, List.forall_mem_cons] at hxs
    obtain ⟨b, hb⟩ := h _ _ hxs.2.1 hxs.1
    obtain ⟨r, hr⟩ := exists_risingRun?_eq_some h hxs.2.1 hxs.2.2
    obtain ⟨r', hr'⟩ := exists_fallingRun?_eq_some h hxs.2.1 hxs.2.2
    cases b <;> simp [leadingRun?, hb, hr, hr']

/-- Where all elements can be compared, every element has its place. -/
theorem exists_place?_eq_some {x : α} (hx : p x) {xs : List α} (hxs : ∀ y ∈ xs, p y) (lo hi : Nat) :
    ∃ k, place? less? x xs lo hi = some k := by
  fun_induction place? less? x xs lo hi with
  | case1 lo hi hlt middle hnone => exact ⟨_, rfl⟩
  | case2 lo hi hlt middle y hy hless =>
    obtain ⟨b, hb⟩ := h _ _ hx (hxs y (List.mem_of_getElem? hy))
    rw [hb] at hless
    cases hless
  | case3 lo hi hlt middle y hy hless ih => exact ih
  | case4 lo hi hlt middle y hy hless ih => exact ih
  | case5 lo hi hlt => exact ⟨_, rfl⟩

/-- Where all elements can be compared, they can all be inserted. -/
theorem exists_insertAll?_eq_some {xs ys : List α} (hxs : ∀ x ∈ xs, p x) (hys : ∀ y ∈ ys, p y) :
    ∃ zs, insertAll? less? xs ys = some zs := by
  induction ys generalizing xs with
  | nil => exact ⟨_, rfl⟩
  | cons y rest ih =>
    rw [List.forall_mem_cons] at hys
    obtain ⟨k, hk⟩ := exists_place?_eq_some h hys.1 hxs 0 xs.length
    have hinsert : insert? less? xs y = some (xs.take k ++ y :: xs.drop k) := by
      rw [insert?, hk, Option.map_some]
    have hmem : ∀ x ∈ xs.take k ++ y :: xs.drop k, p x := by
      intro x hx
      rcases List.mem_cons.1 ((perm_of_insert?_eq_some hinsert).mem_iff.1 hx) with rfl | hx
      · exact hys.1
      · exact hxs x hx
    obtain ⟨zs, hzs⟩ := ih hmem hys.2
    exact ⟨zs, by rw [insertAll?, hinsert, Option.bind_some, hzs]⟩

/-- **A list is sorted** when all its elements can be compared. -/
theorem exists_sort?_eq_some {xs : List α} (hxs : ∀ x ∈ xs, p x) :
    ∃ ys, sort? less? xs = some ys := by
  obtain ⟨r, hr⟩ := exists_leadingRun?_eq_some h hxs
  have hmem : ∀ x ∈ r.1 ++ r.2, p x := fun x hx =>
    hxs x ((perm_of_leadingRun?_eq_some hr).mem_iff.1 hx)
  obtain ⟨ys, hys⟩ := exists_insertAll?_eq_some h (fun x hx => hmem x (List.mem_append_left _ hx))
    (fun x hx => hmem x (List.mem_append_right _ hx))
  exact ⟨ys, by rw [sort?, hr, Option.bind_some, hys]⟩

end Comparable

end Linkage.BisectionSort
