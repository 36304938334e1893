import Mathlib
import Linkage.Fingerprint.Basic
import Linkage.Proofs.BisectionSort
import Linkage.Proofs.Json.Written
import Linkage.Proofs.Lookup

/-!
# Values in another order

A value may hold the entries of a map in the order in which they were stored, and the members
of a set in any order at all. Two values that differ in nothing else, at whatever depth, are
*rearrangements* of each other. They have the same fingerprint: a map is sorted by the texts of
its keys and a set by its members before the document is written, and the values below them
have been treated in the same way.

A key takes part through its text alone. So the keys of a map have to have different texts, and
entries correspond when the texts of their keys are equal: a set that is a key is not sorted.
The members of any other set have to be texts, or integers of any kind, because only members of
one kind have an order that leaves no two of them equal.

## Main results

* `exists_presented`: rearrangements are presented in the same way, as a value that can be
  written.
* `text_eq_of_rearranged`: the document behind their fingerprints is the same.
* `present_singleton`: a key takes part through its text.
-/

namespace Linkage

/-! ### Lists with common images -/

section Images

variable {β γ δ : Type} {f : β → γ} {g : δ → γ} {p : δ → Prop}

/-- Lists whose elements have common images, place by place, are lists of the same images. -/
theorem exists_common_images {xs ys : List β} (hlength : xs.length = ys.length)
    (h : ∀ e ∈ xs.zip ys, ∃ u, (f e.1 = g u ∧ f e.2 = g u) ∧ p u) :
    ∃ us : List δ, (xs.map f = us.map g ∧ ys.map f = us.map g) ∧ ∀ u ∈ us, p u := by
  induction xs generalizing ys with
  | nil =>
      obtain rfl := List.length_eq_zero_iff.mp hlength.symm
      exact ⟨[], ⟨rfl, rfl⟩, by simp⟩
  | cons x xs ih =>
      obtain ⟨y, ys, rfl⟩ := List.exists_cons_of_length_eq_add_one hlength.symm
      rw [List.zip_cons_cons, List.forall_mem_cons] at h
      obtain ⟨⟨u, ⟨hx, hy⟩, hu⟩, hrest⟩ := h
      obtain ⟨us, ⟨hxs, hys⟩, hus⟩ := ih (Nat.succ.inj hlength) hrest
      refine ⟨u :: us, ⟨?_, ?_⟩, List.forall_mem_cons.mpr ⟨hu, hus⟩⟩
      · rw [List.map_cons, List.map_cons, hx, hxs]
      · rw [List.map_cons, List.map_cons, hy, hys]

/-- A list of images in another order is the list of the images in another order. -/
theorem exists_perm_map_eq {xs : List γ} {us : List δ} (h : xs.Perm (us.map g)) :
    ∃ us' : List δ, us'.Perm us ∧ xs = us'.map g := by
  have hcomp : Relation.Comp List.Perm (List.Forall₂ fun x u => x = g u) xs us :=
    ⟨us.map g, h, List.forall₂_map_left_iff.mpr (List.forall₂_same.mpr fun _ _ => rfl)⟩
  rw [← List.forall₂_comp_perm_eq_perm_comp_forall₂] at hcomp
  obtain ⟨us', heq, hperm⟩ := hcomp
  refine ⟨us', hperm, ?_⟩
  rw [← List.forall₂_eq_eq_eq, List.forall₂_map_right_iff]
  exact heq

end Images

namespace Value

/-! ### Rearrangements -/

/-- A value **without parts**: a simple value, a number out of a typed array, a row of bytes,
or a module or parameters, which hold neither maps nor sets. -/
def IsPlain : Value Float → Prop
  | list _ => False
  | tuple _ => False
  | set _ _ => False
  | map _ => False
  | object _ _ _ _ => False
  | cell kind v => ((cell kind v).number?).isSome
  | _ => True

/-- Members **of one kind**: texts only, or integers only, of which no two are equal. A truth
value and an integer out of a typed array count as the integers that they are equal to. -/
inductive OfOneKind (xs : List (Value Float)) : Prop where
  | texts (h : ∀ x ∈ xs, ∃ s, x = text s)
  | integers (h : ∀ x ∈ xs, ∃ n, x.number? = some (.whole n)) (hdistinct : (xs.map number?).Nodup)

/-- Two values that **differ only in the order** of the entries of maps and of the members of
sets, at any depth, in the records of objects as well. The keys of a map have different texts,
and entries with the same text correspond. -/
inductive Rearranged : Value Float → Value Float → Prop where
  | plain {v : Value Float} (h : v.IsPlain) : Rearranged v v
  | list {xs ys : List (Value Float)} (hlength : xs.length = ys.length)
      (h : ∀ e ∈ xs.zip ys, Rearranged e.1 e.2) : Rearranged (list xs) (list ys)
  | tuple {xs ys : List (Value Float)} (hlength : xs.length = ys.length)
      (h : ∀ e ∈ xs.zip ys, Rearranged e.1 e.2) : Rearranged (tuple xs) (tuple ys)
  | object {kind kind' plainText plainText' exactText exactText' : String} {v w : Value Float}
      (h : Rearranged v w) :
      Rearranged (object kind plainText exactText v) (object kind' plainText' exactText' w)
  | set {frozen : Bool} {xs ys : List (Value Float)} (hkind : OfOneKind xs) (hperm : xs.Perm ys) :
      Rearranged (set frozen xs) (set frozen ys)
  | map {es es' fs : List (Value Float × Value Float)} (hkeys : (es.map fun e => e.1.plain).Nodup)
      (hperm : es.Perm es') (hlength : es'.length = fs.length)
      (htexts : ∀ e ∈ es'.zip fs, e.1.1.plain = e.2.1.plain)
      (h : ∀ e ∈ es'.zip fs, Rearranged e.1.2 e.2.2) : Rearranged (map es) (map fs)

end Value

namespace Fingerprint

open Json

/-! ### Parts that are presented -/

/-- The elements of a list are presented one by one. -/
theorem presentEach_eq (xs : List (Value Float)) : presentEach xs = xs.map present := by
  induction xs with
  | nil => rfl
  | cons v rest ih => rw [presentEach, ih, List.map_cons]

/-- The entries of a map are presented one by one, under their keys as texts. -/
theorem presentEntries_eq (es : List (Value Float × Value Float)) :
    presentEntries es = es.map fun e => (e.1.plain, present e.2) := by
  induction es with
  | nil => rfl
  | cons e rest ih => rw [presentEntries, ih, List.map_cons]

/-- A list whose elements have been presented is presented. -/
theorem presentedAll_map_ok (us : List (Value Float)) : presentedAll (us.map .ok) = .ok us := by
  induction us with
  | nil => rfl
  | cons u rest ih => rw [List.map_cons, presentedAll, ih, Except.map]

/-- A map whose values have been presented is a map. -/
theorem presentedMap_map_ok (us : List (String × Value Float)) :
    presentedMap (us.map fun u => (u.1, .ok u.2)) = .ok (.record us) := by
  have hvalues : (us.map fun u => (u.1, (.ok u.2 : Except WriteError (Value Float)))).map Prod.snd =
      (us.map Prod.snd).map .ok := by
    rw [List.map_map, List.map_map]
    rfl
  have hkeys : (us.map fun u => (u.1, (.ok u.2 : Except WriteError (Value Float)))).map Prod.fst =
      us.map Prod.fst := by
    rw [List.map_map]
    rfl
  rw [presentedMap, hvalues, hkeys, presentedAll_map_ok, Except.map, ← List.unzip_fst,
    ← List.unzip_snd, List.zip_unzip]

/-! ### Maps -/

section Keys

variable {es fs : List (String × Except WriteError (Value Float))}

/-- Entries with different keys are kept when they are sorted by key. -/
theorem perm_keyed (hkeys : (es.map Prod.fst).Nodup) : (keyed es).Perm es := by
  have hsorted : (es.mergeSort fun a b => decide (a.1 ≤ b.1)).Perm es := List.mergeSort_perm _ _
  rw [keyed, OrderedMap.entries_ofList ((hsorted.map Prod.fst).nodup_iff.mpr hkeys)]
  exact hsorted

/-- **Sorting by key** does not see the order of entries with different keys. -/
theorem keyed_congr (hkeys : (es.map Prod.fst).Nodup) (hperm : es.Perm fs) :
    keyed es = keyed fs := by
  have hsorted : ∀ gs : List (String × Except WriteError (Value Float)),
      (gs.mergeSort fun a b => decide (a.1 ≤ b.1)).Pairwise fun a b => a.1 ≤ b.1 := fun gs => by
    refine (List.pairwise_mergeSort (fun a b c hab hbc => ?_) (fun a b => ?_) gs).imp
      fun hab => of_decide_eq_true hab
    · rw [decide_eq_true_eq] at hab hbc ⊢
      exact le_trans hab hbc
    · rw [Bool.or_eq_true, decide_eq_true_eq, decide_eq_true_eq]
      exact le_total a.1 b.1
  have hsame : (es.mergeSort fun a b => decide (a.1 ≤ b.1)) =
      fs.mergeSort fun a b => decide (a.1 ≤ b.1) := by
    refine List.Perm.eq_of_pairwise (fun a b ha hb hab hba => ?_) (hsorted es) (hsorted fs)
      ((List.mergeSort_perm _ _).trans (hperm.trans (List.mergeSort_perm _ _).symm))
    have ha' : a ∈ es := List.mem_mergeSort.mp ha
    have hb' : b ∈ es := hperm.mem_iff.mpr (List.mem_mergeSort.mp hb)
    exact List.inj_on_of_nodup_map hkeys ha' hb' (le_antisymm hab hba)
  rw [keyed, keyed, hsame]

end Keys

/-! ### Sets -/

/-- An integer or a truth value. -/
def IsWhole (u : Value Float) : Prop := (∃ n, u = .int n) ∨ ∃ b, u = .flag b

/-- An integer or a truth value can be written. -/
theorem IsWhole.writable {u : Value Float} (h : IsWhole u) : Writable u := by
  rcases h with ⟨n, rfl⟩ | ⟨b, rfl⟩
  · exact .int n
  · exact .flag b

/-- The integer that a value is equal to; zero for a value that is none. -/
def wholeOf (v : Value Float) : ℤ :=
  match v.number? with
  | some (.whole n) => n
  | _ => 0

/-- A whole number has its value. -/
theorem wholeOf_eq {v : Value Float} {n : ℤ} (h : v.number? = some (.whole n)) : wholeOf v = n := by
  rw [wholeOf, h]

/-- Integers and truth values are compared by their values. -/
theorem less?_of_isWhole {u w : Value Float} (hu : IsWhole u) (hw : IsWhole w) :
    Value.less? u w = some (decide (wholeOf u < wholeOf w)) := by
  rcases hu with ⟨m, rfl⟩ | ⟨a, rfl⟩ <;> rcases hw with ⟨n, rfl⟩ | ⟨b, rfl⟩ <;>
    simp only [Value.less?, Value.number?, Number.less, wholeOf] <;> rfl

/-- The member that a fingerprint sees in place of an integer of any kind. -/
def seen : Value Float → Value Float
  | .cell _ v => v
  | v => v

/-- An integer of any kind is presented as the integer or the truth value that it is
equal to. -/
theorem present_of_whole {x : Value Float} {n : ℤ} (h : x.number? = some (.whole n)) :
    present x = .ok (seen x) ∧ (seen x).number? = some (.whole n) ∧ IsWhole (seen x) := by
  cases x with
  | int m => exact ⟨by rw [present]; rfl, h, .inl ⟨m, rfl⟩⟩
  | flag b => exact ⟨by rw [present]; rfl, h, .inr ⟨b, rfl⟩⟩
  | cell kind v =>
      cases v with
      | int m => exact ⟨by rw [present]; rfl, h, .inl ⟨m, rfl⟩⟩
      | flag b => exact ⟨by rw [present]; rfl, h, .inr ⟨b, rfl⟩⟩
      | _ => cases h
  | _ => cases h

/-- A set whose members have been presented is a sorted list. -/
theorem present_set {frozen : Bool} {xs us sorted : List (Value Float)}
    (hpresent : xs.map present = us.map .ok) (hsorted : Value.sortOn? id us = some sorted) :
    present (.set frozen xs) = .ok (.list sorted) := by
  rw [present, presentEach_eq, hpresent, presentedAll_map_ok]
  simp only [bind, Except.bind, hsorted]
  rfl

/-- **The members of a set** are presented in the same order, whichever they were listed in. -/
theorem exists_presented_set {xs ys : List (Value Float)} (hkind : Value.OfOneKind xs)
    (hperm : xs.Perm ys) (frozen : Bool) :
    ∃ u, (present (.set frozen xs) = .ok u ∧ present (.set frozen ys) = .ok u) ∧ Writable u := by
  -- It is enough that the members presented can be sorted alike.
  have hlist : ∀ f : Value Float → Value Float, (∀ x ∈ xs, present x = .ok (f x) ∧ Writable (f x)) →
      (∃ sorted, Value.sortOn? id (xs.map f) = some sorted ∧
        Value.sortOn? id (ys.map f) = some sorted) →
      ∃ u, (present (.set frozen xs) = .ok u ∧ present (.set frozen ys) = .ok u) ∧ Writable u := by
    rintro f hf ⟨sorted, hxs, hys⟩
    have hpresent : ∀ zs : List (Value Float), zs ⊆ xs → zs.map present = (zs.map f).map .ok :=
      fun zs hzs => by
        rw [List.map_map]
        exact List.map_congr_left fun z hz => (hf z (hzs hz)).1
    refine ⟨.list sorted, ⟨present_set (hpresent xs (List.Subset.refl xs)) hxs,
      present_set (hpresent ys hperm.symm.subset) hys⟩, .list fun u hu => ?_⟩
    obtain ⟨x, hx, rfl⟩ := List.mem_map.mp ((BisectionSort.perm_of_sort?_eq_some hxs).mem_iff.mp hu)
    exact (hf x hx).2
  cases hkind with
  | texts h =>
      refine hlist id (fun x hx => ?_) ?_
      · obtain ⟨s, rfl⟩ := h x hx
        exact ⟨by rw [present, id_eq], .text s⟩
      · have hless : ∀ x y : Value Float, (∃ s, x = .text s) → (∃ s, y = .text s) →
            Value.less? (id x) (id y) = some (decide (x.plain < y.plain)) := by
          rintro _ _ ⟨s, rfl⟩ ⟨t, rfl⟩
          rw [id_eq, id_eq, Value.less?, Value.plain, Value.plain]
        rw [List.map_id, List.map_id]
        refine BisectionSort.sort?_eq_of_perm hless ?_ h hperm
        rintro _ _ ⟨s, rfl⟩ ⟨t, rfl⟩ hkey
        exact congrArg Value.text hkey
  | integers h hdistinct =>
      refine hlist seen (fun x hx => ?_) ?_
      · obtain ⟨n, hn⟩ := h x hx
        exact ⟨(present_of_whole hn).1, (present_of_whole hn).2.2.writable⟩
      · have hwhole : ∀ u ∈ xs.map seen, IsWhole u := by
          refine List.forall_mem_map.mpr fun x hx => ?_
          obtain ⟨n, hn⟩ := h x hx
          exact (present_of_whole hn).2.2
        have hless : ∀ u w : Value Float, u ∈ xs.map seen → w ∈ xs.map seen →
            Value.less? (id u) (id w) = some (decide (wholeOf u < wholeOf w)) :=
          fun u w hu hw => less?_of_isWhole (hwhole u hu) (hwhole w hw)
        refine BisectionSort.sort?_eq_of_perm hless (fun u w hu hw hkey => ?_) (fun u hu => hu)
          (hperm.map seen)
        obtain ⟨x, hx, rfl⟩ := List.mem_map.mp hu
        obtain ⟨y, hy, rfl⟩ := List.mem_map.mp hw
        obtain ⟨m, hm⟩ := h x hx
        obtain ⟨n, hn⟩ := h y hy
        rw [wholeOf_eq (present_of_whole hm).2.1, wholeOf_eq (present_of_whole hn).2.1] at hkey
        rw [List.inj_on_of_nodup_map hdistinct hx hy (by rw [hm, hn, hkey])]

/-! ### Values -/

/-- A value without parts is presented as a value that can be written. -/
theorem exists_present_eq_ok {v : Value Float} (h : v.IsPlain) :
    ∃ u, present v = .ok u ∧ Writable u := by
  cases v with
  | list xs => exact h.elim
  | tuple xs => exact h.elim
  | set frozen xs => exact h.elim
  | map es => exact h.elim
  | object _ _ _ record => exact h.elim
  | null => exact ⟨_, by rw [present], .null⟩
  | flag b => exact ⟨_, by rw [present], .flag b⟩
  | int n => exact ⟨_, by rw [present], .int n⟩
  | real x => exact ⟨_, by rw [present, presentScalar], .real _⟩
  | text s => exact ⟨_, by rw [present], .text s⟩
  | bytes bs => exact ⟨_, by rw [present], .text _⟩
  | absent => exact ⟨_, by rw [present], .text _⟩
  | cell kind v =>
      cases v with
      | flag b => exact ⟨.flag b, by rw [present]; rfl, .flag b⟩
      | int n => exact ⟨.int n, by rw [present]; rfl, .int n⟩
      | real x => exact ⟨.real (roundPlaces places x), by rw [present]; rfl, .real _⟩
      | _ => cases h
  | group m =>
      refine ⟨presentModule m, by rw [present], writable_record ?_⟩
      simp only [List.forall_mem_cons, List.not_mem_nil, false_implies, implies_true, and_true]
      exact ⟨.text _, .text _, .int _, .real _, writable_texts _⟩
  | settings p =>
      refine ⟨presentParameters p, by rw [present], writable_record ?_⟩
      simp only [List.forall_mem_cons, List.not_mem_nil, false_implies, implies_true, and_true]
      exact ⟨.real _, .flag _, .text _⟩

/-- **Rearrangements are presented in the same way**, as a value that can be written. Induction
on the rearrangement. -/
theorem exists_presented {v w : Value Float} (h : v.Rearranged w) :
    ∃ u, (present v = .ok u ∧ present w = .ok u) ∧ Writable u := by
  induction h with
  | plain h =>
      obtain ⟨u, hu, hwritable⟩ := exists_present_eq_ok h
      exact ⟨u, ⟨hu, hu⟩, hwritable⟩
  | list hlength _ ih =>
      obtain ⟨us, ⟨hxs, hys⟩, hus⟩ := exists_common_images (g := Except.ok) hlength ih
      refine ⟨.list us, ⟨?_, ?_⟩, .list hus⟩
      · rw [present, presentEach_eq, hxs, presentedAll_map_ok, Except.map]
      · rw [present, presentEach_eq, hys, presentedAll_map_ok, Except.map]
  | tuple hlength _ ih =>
      obtain ⟨us, ⟨hxs, hys⟩, hus⟩ := exists_common_images (g := Except.ok) hlength ih
      refine ⟨.list us, ⟨?_, ?_⟩, .list hus⟩
      · rw [present, presentEach_eq, hxs, presentedAll_map_ok, Except.map]
      · rw [present, presentEach_eq, hys, presentedAll_map_ok, Except.map]
  | object _ ih =>
      obtain ⟨u, ⟨hv, hw⟩, hu⟩ := ih
      exact ⟨u, ⟨by rw [present, hv], by rw [present, hw]⟩, hu⟩
  | set hkind hperm => exact exists_presented_set hkind hperm _
  | @map es es' fs hkeys hperm hlength htexts _ ih =>
      obtain ⟨us, ⟨hes, hfs⟩, hus⟩ := exists_common_images
        (f := fun e : Value Float × Value Float => (e.1.plain, present e.2))
        (g := fun u : String × Value Float => (u.1, .ok u.2)) (p := fun u => Writable u.2) hlength
        (fun e he => by
          obtain ⟨u, ⟨hleft, hright⟩, hu⟩ := ih e he
          exact ⟨(e.1.1.plain, u), ⟨by rw [hleft], by rw [hright, htexts e he]⟩, hu⟩)
      have hnodup : ((presentEntries es).map Prod.fst).Nodup := by
        rw [presentEntries_eq, List.map_map]
        exact hkeys
      have hsame : (presentEntries es).Perm (us.map fun u => (u.1, .ok u.2)) := by
        rw [presentEntries_eq, ← hes]
        exact hperm.map _
      -- The entries are sorted as those of the other map are, and they stay entries that were
      -- presented.
      obtain ⟨us', hperm', hkeyed⟩ := exists_perm_map_eq ((perm_keyed hnodup).trans hsame)
      refine ⟨.record us', ⟨?_, ?_⟩, writable_record fun u hu => hus u (hperm'.mem_iff.mp hu)⟩
      · rw [present, hkeyed, presentedMap_map_ok]
      · rw [present, presentEntries_eq fs, hfs, ← keyed_congr hnodup hsame, hkeyed,
          presentedMap_map_ok]

/-- **The order in which a value is presented does not matter**: values that differ only in the
order of the entries of maps and of the members of sets, at any depth, have documents, and
these are the same. -/
theorem text_eq_of_rearranged {v w : Value Float} (h : v.Rearranged w) :
    ∃ s, text v = .ok s ∧ text w = .ok s := by
  obtain ⟨u, ⟨hv, hw⟩, hu⟩ := exists_presented h
  obtain ⟨s, hs⟩ := hu.exists_write_eq_ok .fingerprint 0
  refine ⟨s, ?_, ?_⟩
  · rw [text, hv]
    exact hs
  · rw [text, hw]
    exact hs

/-- A set within the record of an object within a list within a map. -/
theorem text_eq_of_rearranged_of_nested :
    ∃ s, text (.map [(.text "b", .list [.object "R" "R" "R()" (.set false [.int 2, .flag true])]),
        (.int 1, .null)]) = .ok s ∧
      text (.map [(.int 1, .null),
        (.text "b", .list [.object "R" "R" "R()" (.set false [.flag true, .int 2])])]) = .ok s := by
  have hset : Value.Rearranged (.set false [.int 2, .flag true])
      (.set false [.flag true, .int 2]) :=
    .set (.integers (by simp [Value.number?]) (by simp [Value.number?])) (.swap _ _ [])
  have hlist : Value.Rearranged (.list [.object "R" "R" "R()" (.set false [.int 2, .flag true])])
      (.list [.object "R" "R" "R()" (.set false [.flag true, .int 2])]) :=
    .list rfl (by simpa using Value.Rearranged.object hset)
  have hkeys : ["b", toString (1 : ℤ)].Nodup := by decide
  refine text_eq_of_rearranged (.map hkeys (.swap _ _ []) rfl (by simp) fun e he => ?_)
  simp only [List.zip_cons_cons, List.zip_nil_right, List.mem_cons, List.not_mem_nil,
    or_false] at he
  rcases he with rfl | rfl
  · exact .plain trivial
  · exact hlist

/-! ### Keys -/

/-- **A key takes part through its text.** -/
theorem present_singleton (k v : Value Float) :
    present (.map [(k, v)]) = (present v).map fun u => .record [(k.plain, u)] := by
  rw [present, presentEntries_eq, List.map_singleton, keyed, List.mergeSort_singleton]
  cases present v <;> rfl

/-- The text of a set of two integers lists them in the order of the set. -/
theorem plain_pair (m n : ℤ) : (Value.set true [.int m, .int n]).plain =
    "frozenset(\x7b" ++ Text.join ", " [toString m, toString n] ++ "\x7d)" :=
  rfl

/-- **A set that is a key** is not sorted: the order of its members is seen. -/
theorem text_ne_of_rearranged_key :
    ([.int 0, .int 8] : List (Value Float)).Perm [.int 8, .int 0] ∧
      text (.map [(.set true [.int 0, .int 8], .int 1)]) =
        .ok "\x7b\"frozenset(\x7b0, 8\x7d)\": 1\x7d" ∧
      text (.map [(.set true [.int 0, .int 8], .int 1)]) ≠
        text (.map [(.set true [.int 8, .int 0], .int 1)]) := by
  have htext : ∀ m n : ℤ, text (.map [(.set true [.int m, .int n], .int 1)]) = document .fingerprint
      (.record [("frozenset(\x7b" ++ Text.join ", " [toString m, toString n] ++ "\x7d)",
        .int 1)]) :=
    fun m n => by
      rw [text, present_singleton, plain_pair, present]
      rfl
  have hrising : text (.map [(.set true [.int 0, .int 8], .int 1)]) =
      .ok "\x7b\"frozenset(\x7b0, 8\x7d)\": 1\x7d" := by
    rw [htext]
    cbv
  have hfalling : text (.map [(.set true [.int 8, .int 0], .int 1)]) =
      .ok "\x7b\"frozenset(\x7b8, 0\x7d)\": 1\x7d" := by
    rw [htext]
    cbv
  refine ⟨.swap _ _ [], hrising, ?_⟩
  rw [hrising, hfalling]
  intro h
  have hne : ("\x7b\"frozenset(\x7b0, 8\x7d)\": 1\x7d" : String) ≠
      "\x7b\"frozenset(\x7b8, 0\x7d)\": 1\x7d" := by decide
  exact hne (Except.ok.inj h)

end Fingerprint

end Linkage
