import Mathlib

/-!
# Outcomes that may be errors

What the steps of a computation have returned when the whole of it returns, and which step has
failed when it fails.

## Main results

* `FailsSilently`: failures that have no wording.
* `mapM_eq_ok_iff`, `mapM_eq_error_iff`: a step for each element of a list.
-/

namespace Linkage

variable {ε β γ : Type} {x : Except ε β} {y : γ}

/-- Two steps succeed when both of them do. -/
theorem exists_of_bind_eq_ok {f : β → Except ε γ} (h : x >>= f = .ok y) :
    ∃ b, x = .ok b ∧ f b = .ok y := by
  cases x with
  | error cause => cases h
  | ok b => exact ⟨b, rfl, h⟩

/-- A step whose answer is changed succeeds when the step does. -/
theorem exists_of_map_eq_ok {f : β → γ} (h : x.map f = .ok y) : ∃ b, x = .ok b ∧ f b = y := by
  cases x with
  | error cause => cases h
  | ok b => exact ⟨b, rfl, Except.ok.inj h⟩

/-- Two steps fail when the first one does, or the second one after it. -/
theorem bind_eq_error_iff {f : β → Except ε γ} {cause : ε} :
    x >>= f = .error cause ↔ x = .error cause ∨ ∃ b, x = .ok b ∧ f b = .error cause := by
  cases x with
  | error cause' => simp [bind, Except.bind]
  | ok b => simp [bind, Except.bind]

/-! ### Failures without a wording -/

/-- A computation **fails silently** when it fails and its failure has no wording. -/
def FailsSilently (message? : ε → Option String) (r : Except ε β) : Prop :=
  ∃ e, r = .error e ∧ message? e = none

@[simp] theorem failsSilently_ok_iff {message? : ε → Option String} {b : β} :
    FailsSilently message? (.ok b) ↔ False := by
  simp [FailsSilently]

@[simp] theorem failsSilently_error_iff {message? : ε → Option String} {cause : ε} :
    FailsSilently message? (.error cause : Except ε β) ↔ message? cause = none := by
  simp [FailsSilently]

/-! ### A step for each element of a list -/

/-- The elements of a list **fit until one stops** what is done with them one by one. -/
inductive Until (fits stops : β → Prop) : List β → Prop where
  /-- The first element stops. -/
  | here {x : β} {xs : List β} (h : stops x) : Until fits stops (x :: xs)
  /-- The first element fits, and a later one stops. -/
  | later {x : β} {xs : List β} (hx : fits x) (h : Until fits stops xs) : Until fits stops (x :: xs)

/-- The first element stops, or it fits and a later one stops. -/
theorem until_cons_iff {fits stops : β → Prop} {x : β} {xs : List β} :
    Until fits stops (x :: xs) ↔ stops x ∨ fits x ∧ Until fits stops xs := by
  constructor
  · rintro (h | ⟨hx, h⟩)
    · exact .inl h
    · exact .inr ⟨hx, h⟩
  · rintro (h | ⟨hx, h⟩)
    · exact .here h
    · exact .later hx h

/-- Some element stops. -/
theorem Until.exists_mem {fits stops : β → Prop} {xs : List β} (h : Until fits stops xs) :
    ∃ x ∈ xs, stops x := by
  induction h with
  | here h => exact ⟨_, List.mem_cons_self, h⟩
  | later _ _ ih =>
      obtain ⟨x, hx, h⟩ := ih
      exact ⟨x, List.mem_cons_of_mem _ hx, h⟩

/-- Where every element fits or stops, it is enough that one of them stops. -/
theorem until_iff_exists_mem {fits stops : β → Prop} {xs : List β}
    (h : ∀ x ∈ xs, fits x ∨ stops x) : Until fits stops xs ↔ ∃ x ∈ xs, stops x := by
  refine ⟨Until.exists_mem, fun hstops => ?_⟩
  induction xs with
  | nil => simp at hstops
  | cons x xs ih =>
      rw [List.forall_mem_cons] at h
      rw [List.exists_mem_cons_iff] at hstops
      rcases hstops with hx | hxs
      · exact .here hx
      · exact h.1.elim (fun hfits => .later hfits (ih h.2 hxs)) .here

/-- Each element of the second one of two lists that match is matched by an element of the
first one. -/
theorem exists_mem_of_forall₂ {R : β → γ → Prop} {xs : List β} {ys : List γ}
    (h : List.Forall₂ R xs ys) : ∀ y ∈ ys, ∃ x ∈ xs, R x y := by
  induction h with
  | nil => exact fun _ h => absurd h List.not_mem_nil
  | cons hxy _ ih =>
      refine List.forall_mem_cons.mpr ⟨⟨_, List.mem_cons_self, hxy⟩, fun y hy => ?_⟩
      exact (ih y hy).imp fun x h => ⟨List.mem_cons_of_mem _ h.1, h.2⟩

variable {f : β → Except ε γ} {xs : List β}

/-- A step for each element succeeds when it succeeds for all of them. -/
theorem mapM_eq_ok_iff {ys : List γ} :
    xs.mapM f = .ok ys ↔ List.Forall₂ (fun x y => f x = .ok y) xs ys := by
  induction xs generalizing ys with
  | nil => simp [List.mapM_nil, pure, Except.pure, eq_comm]
  | cons x xs ih =>
      rw [List.mapM_cons, List.forall₂_cons_left_iff]
      constructor
      · intro h
        obtain ⟨y, hy, h⟩ := exists_of_bind_eq_ok h
        obtain ⟨rest, hrest, h⟩ := exists_of_bind_eq_ok h
        exact ⟨y, rest, hy, ih.mp hrest, (Except.ok.inj h).symm⟩
      · rintro ⟨y, rest, hy, hrest, rfl⟩
        rw [hy, ih.mpr hrest]
        rfl

/-- A step for each element succeeds when it has an answer for each. -/
theorem exists_mapM_eq_ok (h : ∀ x ∈ xs, ∃ y, f x = .ok y) : ∃ ys, xs.mapM f = .ok ys := by
  induction xs with
  | nil => exact ⟨[], rfl⟩
  | cons x xs ih =>
      rw [List.forall_mem_cons] at h
      obtain ⟨⟨y, hy⟩, hrest⟩ := h
      obtain ⟨ys, hys⟩ := ih hrest
      exact ⟨y :: ys, mapM_eq_ok_iff.mpr (.cons hy (mapM_eq_ok_iff.mp hys))⟩

/-- A step for each element fails as it does for the first element for which it fails. -/
theorem mapM_eq_error_iff {cause : ε} :
    xs.mapM f = .error cause ↔
      Until (fun x => ∃ y, f x = .ok y) (fun x => f x = .error cause) xs := by
  induction xs with
  | nil => exact iff_of_false (fun h => by cases h) (fun h => by cases h)
  | cons x xs ih =>
      rw [List.mapM_cons, until_cons_iff, ← ih]
      cases hx : f x with
      | error cause' => simp [bind, Except.bind]
      | ok y => cases hrest : xs.mapM f <;> simp [bind, Except.bind, pure, Except.pure]

/-- A step for each element that has an answer for all of them, or for one of them none. -/
theorem mapM_eq_some_iff {f : β → Option γ} {ys : List γ} :
    xs.mapM f = some ys ↔ List.Forall₂ (fun x y => f x = some y) xs ys := by
  induction xs generalizing ys with
  | nil => simp [eq_comm]
  | cons x xs ih =>
      rw [List.mapM_cons, List.forall₂_cons_left_iff]
      cases hx : f x with
      | none => simp
      | some y =>
          cases hrest : xs.mapM f with
          | none =>
              have hno : ∀ zs, ¬List.Forall₂ (fun x y => f x = some y) xs zs := fun zs hzs => by
                rw [ih.mpr hzs] at hrest
                cases hrest
              simp [hno]
          | some rest =>
              have hsome : ∀ zs, List.Forall₂ (fun x y => f x = some y) xs zs ↔ rest = zs :=
                fun zs => by
                rw [← ih, hrest, Option.some.injEq]
              simp [hsome, eq_comm]

/-- A function that may fail fails on a list when it fails on an element. -/
theorem mapM_eq_none_iff {f : β → Option γ} : xs.mapM f = none ↔ ∃ x ∈ xs, f x = none := by
  induction xs with
  | nil => simp
  | cons x xs ih =>
      rw [List.mapM_cons, List.exists_mem_cons_iff, ← ih]
      cases hx : f x with
      | none => simp
      | some y => cases hrest : xs.mapM f <;> simp

end Linkage
