import Mathlib
import Linkage.Clustering.WeightMatrix
import Linkage.Proofs.Coupling.EachPairOnce

/-!
# Weight matrices, cell by cell

The entries of a table are entered into a square one after the other, and an entry overwrites
two cells at most. What the square holds at the end is settled by an invariant of the entries
entered so far: it is symmetric with zeros on the diagonal, and a cell of two different classes
holds the first weight other than zero among those that concern the two.

The diagonal stays zero because an entry of a class with itself is passed over. Symmetry is
what makes the test of a single cell enough: the other cell of the pair holds the same value.

## Main results

* `enter_cases`: an entry changes nothing, or writes one value to the two cells of a pair.
* `isSymmetric_weightMatrix`: the matrix is symmetric and its diagonal is zero.
* `cellAt_eq_firstWeight`, `cellAt_eq_zero`: a cell of two different classes, and any other.
* `weightMatrix_of_nodup`: the matrix of distinct classes, row by row.
* `cellAt_weightMatrix`: what the cells of a table hold, and when that is what a look-up finds.
-/

namespace Linkage

open WeightMatrix

variable {α : Type} [Scalar α]

namespace WeightMatrix

/-! ### Writing to cells -/

/-- A **square**: as many rows as places, and as many cells in each. -/
structure IsSquare (n : ℕ) (rows : List (List α)) : Prop where
  /-- There is a row for each place. -/
  length_eq : rows.length = n
  /-- A row has a cell for each place. -/
  length_row : ∀ row ∈ rows, row.length = n

variable {n i j : ℕ} {rows rows' : List (List α)} {x : α}

omit [Scalar α] in
/-- A row of a square matrix has as many cells as there are rows. -/
theorem IsSquare.length_getD (h : IsSquare n rows) (hi : i < n) : (rows.getD i []).length = n := by
  have hi' : i < rows.length := h.length_eq.symm ▸ hi
  rw [List.getD_eq_getElem _ _ hi']
  exact h.length_row _ (List.getElem_mem hi')

omit [Scalar α] in
/-- A write leaves a matrix square. -/
theorem IsSquare.setCell (h : IsSquare n rows) (i j : ℕ) (x : α) :
    IsSquare n (setCell rows i j x) := by
  refine ⟨by rw [WeightMatrix.setCell, List.length_modify, h.length_eq], fun row hrow => ?_⟩
  obtain ⟨k, hk, rfl⟩ := List.mem_iff_getElem.mp hrow
  rw [WeightMatrix.setCell, List.length_modify] at hk
  have hlength := h.length_row _ (List.getElem_mem hk)
  simp only [WeightMatrix.setCell, List.getElem_modify]
  split
  · rwa [List.length_set]
  · exact hlength

omit [Scalar α] in
/-- What holds of all cells and of a value still holds of all cells after the value
is written. -/
theorem forall_mem_setCell {P : α → Prop} (h : ∀ row ∈ rows, ∀ y ∈ row, P y) (hx : P x) :
    ∀ row ∈ WeightMatrix.setCell rows i j x, ∀ y ∈ row, P y := by
  intro row hrow y hy
  obtain ⟨k, hk, rfl⟩ := List.mem_iff_getElem.mp hrow
  rw [WeightMatrix.setCell, List.length_modify] at hk
  simp only [WeightMatrix.setCell, List.getElem_modify] at hy
  split at hy
  · rcases List.mem_or_eq_of_mem_set hy with hy | rfl
    · exact h _ (List.getElem_mem hk) y hy
    · exact hx
  · exact h _ (List.getElem_mem hk) y hy

/-- A value that is written to a cell is found there, and nothing else changes. -/
theorem IsSquare.cellAt_setCell (h : IsSquare n rows) (hi : i < n) (hj : j < n) (x : α) (k l : ℕ) :
    cellAt (WeightMatrix.setCell rows i j x) k l =
      if k = i ∧ l = j then x else cellAt rows k l := by
  have hi' : i < rows.length := h.length_eq.symm ▸ hi
  have hj' : j < (rows.getD i []).length := by rwa [h.length_getD hi]
  by_cases hk : k = i
  · subst hk
    rw [List.getD_eq_getElem _ _ hi'] at hj'
    by_cases hl : l = j
    · subst hl
      simp [cellAt, WeightMatrix.setCell, List.getD_eq_getElem?_getD, hi', hj']
    · simp [cellAt, WeightMatrix.setCell, List.getD_eq_getElem?_getD, hi', hl, Ne.symm hl]
  · simp [cellAt, WeightMatrix.setCell, List.getD_eq_getElem?_getD, hk, Ne.symm hk]

/-- Squares with the same cells are equal. -/
theorem IsSquare.ext (h : IsSquare n rows) (h' : IsSquare n rows')
    (hcells : ∀ i < n, ∀ j < n, cellAt rows i j = cellAt rows' i j) : rows = rows' := by
  refine List.ext_getElem (h.length_eq.trans h'.length_eq.symm) fun i hi hi' => ?_
  have hrow := h.length_row _ (List.getElem_mem hi)
  have hrow' := h'.length_row _ (List.getElem_mem hi')
  refine List.ext_getElem (hrow.trans hrow'.symm) fun j hj hj' => ?_
  have hcell := hcells i (h.length_eq ▸ hi) j (hrow ▸ hj)
  rwa [cellAt, cellAt, List.getD_eq_getElem _ _ hi, List.getD_eq_getElem _ _ hi',
    List.getD_eq_getElem _ _ hj, List.getD_eq_getElem _ _ hj'] at hcell

/-! ### Entering an entry -/

/-- A **symmetric** square with zeros on its diagonal. -/
structure IsSymmetric (n : ℕ) (rows : List (List α)) : Prop extends IsSquare n rows where
  /-- A cell holds what the cell across the diagonal holds. -/
  comm : ∀ i j, cellAt rows i j = cellAt rows j i
  /-- The diagonal is zero. -/
  diagonal : ∀ i, cellAt rows i i = 0

/-- A matrix of zeros has only zeros. -/
theorem cellAt_zeros (n i j : ℕ) : cellAt (zeros n : List (List α)) i j = 0 := by
  by_cases hi : i < n <;> by_cases hj : j < n <;>
    simp [cellAt, zeros, List.getD_eq_getElem?_getD, hi, hj]

/-- A matrix of zeros is symmetric. -/
theorem isSymmetric_zeros (n : ℕ) : IsSymmetric n (zeros n : List (List α)) := by
  refine ⟨⟨List.length_replicate, fun row hrow => ?_⟩, fun i j => ?_, fun i => cellAt_zeros n i i⟩
  · rw [List.eq_of_mem_replicate hrow, List.length_replicate]
  · rw [cellAt_zeros, cellAt_zeros]

/-- Two cells that lie across the diagonal from each other are written together. -/
theorem IsSquare.cellAt_setBoth (h : IsSquare n rows) (hi : i < n) (hj : j < n) (x : α) (k l : ℕ) :
    cellAt (setBoth rows i j x) k l =
      if k = i ∧ l = j ∨ k = j ∧ l = i then x else cellAt rows k l := by
  rw [setBoth, (h.setCell i j x).cellAt_setCell hj hi, h.cellAt_setCell hi hj]
  by_cases hji : k = j ∧ l = i
  · simp [hji]
  · simp [hji]

/-- A write to both cells of a pair leaves a matrix symmetric. -/
theorem IsSymmetric.setBoth (h : IsSymmetric n rows) (hi : i < n) (hj : j < n) (hne : i ≠ j)
    (x : α) : IsSymmetric n (setBoth rows i j x) := by
  refine ⟨(h.setCell i j x).setCell j i x, fun k l => ?_, fun k => ?_⟩
  · rw [h.cellAt_setBoth hi hj, h.cellAt_setBoth hi hj, h.comm k l]
    exact if_congr (by tauto) rfl rfl
  · rw [h.cellAt_setBoth hi hj, h.diagonal k, if_neg]
    rintro (⟨rfl, rfl⟩ | ⟨rfl, rfl⟩)
    · exact hne rfl
    · exact hne rfl

variable {index : OrderedMap String ℕ} {entry : ClassPair × α}

/-- **An entry changes nothing, or writes its weight to the two cells of a pair** of different
places, of which the first was zero. -/
theorem enter_cases (index : OrderedMap String ℕ) (rows : List (List α)) (entry : ClassPair × α) :
    enter index rows entry = rows ∨
      ∃ i j, index.get? entry.1.1 = some i ∧ index.get? entry.1.2 = some j ∧ i ≠ j ∧
        (cellAt rows i j == 0) = true ∧ enter index rows entry = setBoth rows i j entry.2 := by
  unfold enter
  split
  · next i j hi hj =>
    split
    · exact .inl rfl
    · next hne =>
      split
      · next hzero => exact .inr ⟨i, j, hi, hj, hne, hzero, rfl⟩
      · exact .inl rfl
  · exact .inl rfl

/-- An entry keeps the square symmetric. -/
theorem IsSymmetric.enter (h : IsSymmetric n rows)
    (hindex : ∀ name k, index.get? name = some k → k < n) (entry : ClassPair × α) :
    IsSymmetric n (enter index rows entry) := by
  obtain hsame | ⟨i, j, hi, hj, hne, -, hset⟩ := enter_cases index rows entry
  · rwa [hsame]
  · rw [hset]
    exact h.setBoth (hindex _ _ hi) (hindex _ _ hj) hne entry.2

/-- An entry between two places offers its weight to their cell. -/
theorem IsSymmetric.cellAt_enter_of_places (h : IsSymmetric n rows) (hi : i < n) (hj : j < n)
    (hne : i ≠ j)
    (hentry : index.get? entry.1.1 = some i ∧ index.get? entry.1.2 = some j ∨
      index.get? entry.1.1 = some j ∧ index.get? entry.1.2 = some i) :
    cellAt (WeightMatrix.enter index rows entry) i j = keepNonzero (cellAt rows i j) entry.2 := by
  rw [keepNonzero]
  rcases hentry with ⟨hfirst, hsecond⟩ | ⟨hfirst, hsecond⟩
  · simp only [WeightMatrix.enter, hfirst, hsecond, if_neg hne]
    split
    · rw [h.cellAt_setBoth hi hj, if_pos (.inl ⟨rfl, rfl⟩)]
    · rfl
  · -- the test reads the cell across the diagonal, which holds the same value
    simp only [WeightMatrix.enter, hfirst, hsecond, if_neg hne.symm, h.comm j i]
    split
    · rw [h.cellAt_setBoth hj hi, if_pos (.inr ⟨rfl, rfl⟩)]
    · rfl

/-- Any other entry leaves the cell alone. -/
theorem IsSymmetric.cellAt_enter_of_not_places (h : IsSymmetric n rows)
    (hindex : ∀ name k, index.get? name = some k → k < n)
    (hentry : ¬ (index.get? entry.1.1 = some i ∧ index.get? entry.1.2 = some j ∨
      index.get? entry.1.1 = some j ∧ index.get? entry.1.2 = some i)) :
    cellAt (WeightMatrix.enter index rows entry) i j = cellAt rows i j := by
  obtain hsame | ⟨k, l, hk, hl, -, -, hset⟩ := enter_cases index rows entry
  · rw [hsame]
  · rw [hset, h.cellAt_setBoth (hindex _ _ hk) (hindex _ _ hl), if_neg]
    rintro (⟨rfl, rfl⟩ | ⟨rfl, rfl⟩)
    · exact hentry (.inl ⟨hk, hl⟩)
    · exact hentry (.inr ⟨hk, hl⟩)

/-! ### The places of classes -/

/-- A class stands at its place. -/
theorem getElem?_of_get?_places {classes : List String} {a : String}
    (h : (places classes).get? a = some i) : classes[i]? = some a :=
  List.mk_mem_zipIdx_iff_getElem?.mp
    (OrderedMap.mem_of_mem_entries_ofList (OrderedMap.get?_eq_some_iff.mp h))

/-- The place of a class is one of a row. -/
theorem lt_of_get?_places {classes : List String} {a : String}
    (h : (places classes).get? a = some i) : i < classes.length :=
  (List.getElem?_eq_some_iff.mp (getElem?_of_get?_places h)).1

/-- Different classes have different places. -/
theorem places_injective {classes : List String} {a b : String}
    (ha : (places classes).get? a = some i) (hb : (places classes).get? b = some i) : a = b :=
  Option.some.inj ((getElem?_of_get?_places ha).symm.trans (getElem?_of_get?_places hb))

/-- The place of a class in a list of distinct classes is the one where it stands. -/
theorem get?_places_iff {classes : List String} (hnd : classes.Nodup) {a : String} :
    (places classes).get? a = some i ↔ classes[i]? = some a := by
  have hkeys : (classes.zipIdx.map Prod.fst).Nodup := by rwa [List.zipIdx_map_fst]
  rw [OrderedMap.get?_eq_some_iff, places, OrderedMap.entries_ofList hkeys,
    List.mk_mem_zipIdx_iff_getElem?]

end WeightMatrix

/-! ### The matrix of a table -/

section Matrix

variable {classes : List String} {weights : CouplingWeights α}

/-- What holds of zeros and is kept by each entry holds of the matrix. -/
theorem weightMatrix_induction {P : List (List α) → Prop}
    (hzeros : P (WeightMatrix.zeros classes.length))
    (henter : ∀ rows, P rows → ∀ e ∈ weights.entries, P (enter (places classes) rows e)) :
    P (weightMatrix classes weights) :=
  List.foldlRecOn weights.entries _ hzeros henter

/-- **The matrix is symmetric and its diagonal is zero**, whatever the table holds. -/
theorem isSymmetric_weightMatrix (classes : List String) (weights : CouplingWeights α) :
    IsSymmetric classes.length (weightMatrix classes weights) :=
  weightMatrix_induction (isSymmetric_zeros _) fun _ hrows e _ =>
    hrows.enter (fun _ _ => lt_of_get?_places) e

/-- The matrix has a row for each class. -/
theorem length_weightMatrix (classes : List String) (weights : CouplingWeights α) :
    (weightMatrix classes weights).length = classes.length :=
  (isSymmetric_weightMatrix classes weights).length_eq

/-- A row of the matrix has a cell for each class. -/
theorem length_of_mem_weightMatrix {row : List α} (h : row ∈ weightMatrix classes weights) :
    row.length = classes.length :=
  (isSymmetric_weightMatrix classes weights).length_row row h

/-- Entering entries in turn folds the weights that relate two classes into their cell. -/
theorem cellAt_foldl_enter {i j : ℕ} {a b : String} (hi : (places classes).get? a = some i)
    (hj : (places classes).get? b = some j) (hne : a ≠ b) (entries : List (ClassPair × α))
    {rows : List (List α)} (hrows : IsSymmetric classes.length rows) :
    cellAt (entries.foldl (enter (places classes)) rows) i j =
      ((entries.filter fun e => relates a b e.1).map Prod.snd).foldl keepNonzero
        (cellAt rows i j) := by
  have hplace : ∀ {name name' k}, (places classes).get? name = some k →
      ((places classes).get? name' = some k ↔ name' = name) := fun hk =>
    ⟨fun hk' => places_injective hk' hk, fun h => h ▸ hk⟩
  have hrange : ∀ name k, (places classes).get? name = some k → k < classes.length :=
    fun _ _ => lt_of_get?_places
  have hij : i ≠ j := fun h => hne (places_injective hi (h ▸ hj))
  induction entries generalizing rows with
  | nil => rfl
  | cons e rest ih =>
      have hrelates : relates a b e.1 = true ↔
          (places classes).get? e.1.1 = some i ∧ (places classes).get? e.1.2 = some j ∨
            (places classes).get? e.1.1 = some j ∧ (places classes).get? e.1.2 = some i := by
        simp only [relates_iff, hplace hi, hplace hj, Prod.ext_iff]
      rw [List.foldl_cons, ih (hrows.enter hrange e)]
      by_cases he : relates a b e.1 = true
      · have hcell := hrows.cellAt_enter_of_places (hrange a i hi) (hrange b j hj) hij
          (hrelates.mp he)
        rw [hcell, List.filter_cons, if_pos he, List.map_cons, List.foldl_cons]
      · have hcell := hrows.cellAt_enter_of_not_places hrange fun h => he (hrelates.mpr h)
        rw [hcell, List.filter_cons, if_neg he]

/-- A cell of two different classes holds the first weight between them. -/
theorem cellAt_eq_firstWeight (weights : CouplingWeights α) {i j : ℕ} {a b : String}
    (hi : (places classes).get? a = some i) (hj : (places classes).get? b = some j) (hne : a ≠ b) :
    cellAt (weightMatrix classes weights) i j = firstWeight weights a b := by
  rw [weightMatrix, cellAt_foldl_enter hi hj hne _ (isSymmetric_zeros _), cellAt_zeros, firstWeight]

/-- A cell that belongs to no two different classes is zero. -/
theorem cellAt_eq_zero (weights : CouplingWeights α) {i j : ℕ}
    (h : ∀ a b, (places classes).get? a = some i → (places classes).get? b = some j → a = b) :
    cellAt (weightMatrix classes weights) i j = 0 := by
  have hcells : IsSymmetric classes.length (weightMatrix classes weights) ∧
      cellAt (weightMatrix classes weights) i j = 0 := by
    refine weightMatrix_induction
      (P := fun rows => IsSymmetric classes.length rows ∧ cellAt rows i j = 0)
      ⟨isSymmetric_zeros _, cellAt_zeros _ _ _⟩ fun rows ⟨hrows, hzero⟩ e _ =>
        ⟨hrows.enter (fun _ _ => lt_of_get?_places) e, ?_⟩
    obtain hsame | ⟨k, l, hk, hl, hne, -, hset⟩ := enter_cases (places classes) rows e
    · rwa [hsame]
    · -- the entry is of two different classes, so it is written elsewhere
      have hclasses : e.1.1 ≠ e.1.2 := fun heq => hne (Option.some.inj (hk.symm.trans (heq ▸ hl)))
      rw [hset, hrows.cellAt_setBoth (lt_of_get?_places hk) (lt_of_get?_places hl), if_neg, hzero]
      rintro (⟨rfl, rfl⟩ | ⟨rfl, rfl⟩)
      · exact hclasses (h _ _ hk hl)
      · exact hclasses (h _ _ hl hk).symm
  exact hcells.2

/-- A cell does not depend on the order of its classes. -/
theorem cell_comm (weights : CouplingWeights α) (a b : Option String) :
    cell weights a b = cell weights b a := by
  match a, b with
  | some x, some y => simp only [cell, eq_comm, firstWeight_comm weights x y]
  | some _, none => rfl
  | none, some _ => rfl
  | none, none => rfl

/-- The weight matrix of distinct classes, row by row. -/
theorem weightMatrix_of_nodup (hnd : classes.Nodup) (weights : CouplingWeights α) :
    weightMatrix classes weights =
      classes.map fun a => classes.map fun b => cell weights (some a) (some b) := by
  have hsquare : IsSquare classes.length
      (classes.map fun a => classes.map fun b => cell weights (some a) (some b)) := by
    refine ⟨List.length_map _, fun row hrow => ?_⟩
    obtain ⟨a, -, rfl⟩ := List.mem_map.mp hrow
    exact List.length_map _
  refine (isSymmetric_weightMatrix classes weights).toIsSquare.ext hsquare fun i hi j hj => ?_
  have hcell :
      cellAt (classes.map fun a => classes.map fun b => cell weights (some a) (some b)) i j =
      cell weights (some classes[i]) (some classes[j]) := by
    simp [cellAt, List.getD_eq_getElem?_getD, hi, hj]
  rw [hcell, cell]
  split
  · next heq =>
    obtain rfl : i = j := (hnd.getElem_inj_iff).mp heq
    exact (isSymmetric_weightMatrix classes weights).diagonal i
  · next hne =>
    exact cellAt_eq_firstWeight weights ((get?_places_iff hnd).mpr (List.getElem?_eq_getElem hi))
      ((get?_places_iff hnd).mpr (List.getElem?_eq_getElem hj)) hne

end Matrix

/-! ### The first weight other than zero -/

/-- The **first weight other than zero** that a table stores for two classes, in either
direction and in the order of its entries. -/
def firstNonzero? (weights : CouplingWeights α) (a b : String) : Option α :=
  (weights.entries.find? fun e => (e.1 == (a, b) || e.1 == (b, a)) && !(e.2 == 0)).map Prod.snd

/-- A value other than zero stays. -/
theorem foldl_keepNonzero_of_ne {held : α} (h : (held == 0) = false) (xs : List α) :
    xs.foldl keepNonzero held = held := by
  induction xs with
  | nil => rfl
  | cons x rest ih => rw [List.foldl_cons, keepNonzero, if_neg (by simp [h]), ih]

/-- Offering values in turn to a cell that is zero leaves the first one other than zero there,
and a zero when there is none. -/
theorem foldl_keepNonzero_of_zero {held : α} (h : (held == 0) = true) (xs : List α) :
    (∀ x, xs.find? (fun y => !(y == 0)) = some x → xs.foldl keepNonzero held = x) ∧
      (xs.find? (fun y => !(y == 0)) = none → (xs.foldl keepNonzero held == 0) = true) := by
  induction xs generalizing held with
  | nil => exact ⟨fun x hx => by simp at hx, fun _ => h⟩
  | cons y rest ih =>
      have hoffer : keepNonzero held y = y := if_pos h
      rw [List.foldl_cons, hoffer, List.find?_cons]
      cases hy : y == 0 with
      | true => exact ih hy
      | false =>
          rw [foldl_keepNonzero_of_ne hy]
          exact ⟨fun x hx => Option.some.inj hx, fun hnone => by cases hnone⟩

/-- The first stored coupling that is not zero is found among the entries of the pair. -/
theorem firstNonzero?_eq (weights : CouplingWeights α) (a b : String) :
    firstNonzero? weights a b =
      ((weights.entries.filter fun e => relates a b e.1).map Prod.snd).find? fun y =>
        !(y == 0) := by
  have hrelates : ∀ pair : ClassPair, (pair == (a, b) || pair == (b, a)) = relates a b pair := by
    intro pair
    rw [Bool.eq_iff_iff, relates_iff]
    simp
  simp [firstNonzero?, hrelates, List.find?_map, List.find?_filter]

/-- The first weight between two classes is the first one other than zero, and a zero when
there is none. -/
theorem firstWeight_spec (hz : ((0 : α) == 0) = true) (weights : CouplingWeights α) (a b : String) :
    (∀ x, firstNonzero? weights a b = some x → firstWeight weights a b = x) ∧
      (firstNonzero? weights a b = none → (firstWeight weights a b == 0) = true) := by
  rw [firstNonzero?_eq, firstWeight]
  exact foldl_keepNonzero_of_zero hz _

/-- **The weight matrix of a table**, cell by cell. It is a square over the classes, symmetric
and with zeros on its diagonal. The cell of two different classes holds the first weight other
than zero that the table stores for them, in the order of its entries and in either direction,
and a zero when there is none; when no two classes are a key in both directions it holds what a
look-up finds. -/
theorem cellAt_weightMatrix (hz : ((0 : α) == 0) = true) {classes : List String}
    (hnd : classes.Nodup) (weights : CouplingWeights α) :
    let rows := weightMatrix classes weights
    rows.length = classes.length ∧ (∀ row ∈ rows, row.length = classes.length) ∧
    (∀ i j, cellAt rows i j = cellAt rows j i) ∧ (∀ i, cellAt rows i i = 0) ∧
    ∀ i j a b, classes[i]? = some a → classes[j]? = some b → a ≠ b →
      (∀ x, firstNonzero? weights a b = some x → cellAt rows i j = x) ∧
      (firstNonzero? weights a b = none → (cellAt rows i j == 0) = true) ∧
      (EachPairOnce weights → cellAt rows i j = couplingBetween weights a b) := by
  intro rows
  obtain ⟨⟨hlength, hrow⟩, hcomm, hdiagonal⟩ := isSymmetric_weightMatrix classes weights
  refine ⟨hlength, hrow, hcomm, hdiagonal, fun i j a b hi hj hne => ?_⟩
  have hcell : cellAt rows i j = firstWeight weights a b :=
    cellAt_eq_firstWeight weights ((get?_places_iff hnd).mpr hi) ((get?_places_iff hnd).mpr hj) hne
  obtain ⟨hfirst, hnone⟩ := firstWeight_spec hz weights a b
  rw [hcell]
  exact ⟨hfirst, hnone, fun hpairs => firstWeight_eq_couplingBetween hz hpairs hne⟩

/-- A zero that is stored first is overwritten by the weight in the other direction, and a cell
that is set is not written again; an undefined weight stays; an entry of a class with itself or
with an unknown one is passed over. -/
theorem cellAt_weightMatrix_of_zero_first :
    let classes := ["b", "a", "c"]
    let weights : CouplingWeights Float :=
      .ofList [(("a", "b"), 0), (("a", "a"), 3), (("b", "x"), 1), (("c", "a"), 0 / 0),
        (("b", "a"), 2), (("a", "c"), 1)]
    let rows := weightMatrix classes weights
    classes.Nodup ∧ cellAt rows 0 1 = 2 ∧ cellAt rows 1 0 = 2 ∧ cellAt rows 1 1 = 0 ∧
      cellAt rows 1 2 = 0 / 0 ∧ (cellAt rows 0 2 == 0) = true := by
  intro classes weights rows
  have hnd : classes.Nodup := by decide
  have hentries : weights.entries = [(("a", "b"), 0), (("a", "a"), 3), (("b", "x"), 1),
      (("c", "a"), 0 / 0), (("b", "a"), 2), (("a", "c"), 1)] :=
        OrderedMap.entries_ofList (by decide)
  have hundefined : (((0 : Float) / 0) == 0) = false := by decide
  have htwo : ((2 : Float) == 0) = false := by decide
  have hz : ((0 : Float) == 0) = true := by decide
  obtain ⟨-, -, hcomm, hdiagonal, hcells⟩ := cellAt_weightMatrix hz hnd weights
  have hab : cellAt rows 0 1 = 2 :=
    (hcells 0 1 "b" "a" rfl rfl (by decide)).1 2 (by simp [firstNonzero?, hentries, hz, htwo])
  refine ⟨hnd, hab, (hcomm 1 0).trans hab, hdiagonal 1, ?_, ?_⟩
  · exact (hcells 1 2 "a" "c" rfl rfl (by decide)).1 (0 / 0)
      (by simp [firstNonzero?, hentries, hundefined])
  · exact (hcells 0 2 "b" "c" rfl rfl (by decide)).2.1 (by simp [firstNonzero?, hentries])

end Linkage
