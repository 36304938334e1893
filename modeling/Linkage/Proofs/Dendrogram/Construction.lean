import Mathlib
import Linkage.Proofs.Dendrogram.WellFormed

/-!
# Sequences of constructions

Trees are made one after the other by calls of the constructors. A call may take any trees that
were made before as its subtrees, the same ones as often as it likes; a call that is refused,
or that asks for a tree that is not there, makes nothing.

The constructor looks at the classes of two subtrees only, and never into them. That it keeps
them apart is enough for a tree to have every class at one leaf, however its parts were passed
around: a tree that was used twice below a node would share its classes with itself.

## Main results

* `wellFormed_of_mem_made`: whatever is made is well-formed, by induction on the calls.
* `exists_mem_made_iff`: the trees that are made by some sequence of calls are the well-formed
  ones.
* `regular_of_mem_made`: what is made has as many leaves as classes and one inner node less.
-/

namespace Linkage.Dendrogram

variable {α : Type}

/-- A **call** of a constructor. Subtrees are given by their places among the trees that were
made before. -/
inductive Call (α : Type) where
  /-- The leaf of a class. -/
  | leaf (name : String)
  /-- The union of two trees. -/
  | merge (name : String) (left right : ℕ) (coupling : α) (level : ℤ)
  /-- A node with the given subtrees, if any. -/
  | node (name : String) (left right : Option ℕ) (coupling : α) (level : ℤ)

namespace Call

/-- The subtree at a place, if there is a place; `none` when nothing has been made there. -/
def argument? (made : List (Dendrogram α)) : Option ℕ → Option (Option (Dendrogram α))
  | none => some none
  | some place => made[place]?.map some

/-- The same call with its places moved behind some more trees. -/
def shift (count : ℕ) : Call α → Call α
  | leaf name => leaf name
  | merge name left right coupling level => merge name (count + left) (count + right) coupling level
  | node name left right coupling level =>
    node name (left.map (count + ·)) (right.map (count + ·)) coupling level

variable [Scalar α]

/-- What a call yields after some trees have been made: a tree, or why there is none; `none`
when it asks for a tree that is not there. -/
def outcome? (made : List (Dendrogram α)) : Call α → Option (Except DendrogramError (Dendrogram α))
  | leaf name => some (ofClass? name)
  | merge name left right coupling level => do
    let l ← made[left]?
    let r ← made[right]?
    return merge? name l r coupling level
  | node name left right coupling level => do
    let l ← argument? made left
    let r ← argument? made right
    return make? name l r coupling level

/-- The trees that have been made after one more call. -/
def perform (made : List (Dendrogram α)) (call : Call α) : List (Dendrogram α) :=
  match call.outcome? made with
  | some (.ok t) => made ++ [t]
  | _ => made

end Call

variable [Scalar α]

/-- The trees that a **sequence of calls** makes, in order. -/
def made (calls : List (Call α)) : List (Dendrogram α) := calls.foldl Call.perform []

/-! ### One call -/

/-- A call makes at most one tree, and that is its outcome. -/
theorem Call.perform_cases (trees : List (Dendrogram α)) (call : Call α) :
    call.perform trees = trees ∨
      ∃ t, call.outcome? trees = some (.ok t) ∧ call.perform trees = trees ++ [t] := by
  unfold perform
  split
  · next t h => exact .inr ⟨t, h, rfl⟩
  · exact .inl rfl

omit [Scalar α] in
/-- A subtree that a call takes is one of the trees that were made before. -/
theorem Call.mem_of_argument? {trees : List (Dendrogram α)} {place : Option ℕ}
    {subtree : Option (Dendrogram α)} (h : argument? trees place = some subtree) :
    ∀ t, subtree = some t → t ∈ trees := by
  rintro t rfl
  cases place with
  | none => cases h
  | some place =>
      obtain ⟨t', ht', heq⟩ := Option.map_eq_some_iff.mp h
      exact Option.some.inj heq ▸ List.mem_of_getElem? ht'

/-- **A call makes a built tree** from trees that are built. -/
theorem Call.built_of_outcome? {trees : List (Dendrogram α)} (htrees : ∀ t ∈ trees, Built t)
    {call : Call α} {t : Dendrogram α} (h : call.outcome? trees = some (.ok t)) : Built t := by
  cases call with
  | leaf name => exact .make (by simp) (by simp) (Option.some.inj h)
  | merge name left right coupling level =>
      obtain ⟨l, hl, h⟩ := Option.bind_eq_some_iff.mp h
      obtain ⟨r, hr, h⟩ := Option.bind_eq_some_iff.mp h
      refine .make ?_ ?_ (Option.some.inj h)
      · rintro _ ⟨⟩
        exact htrees l (List.mem_of_getElem? hl)
      · rintro _ ⟨⟩
        exact htrees r (List.mem_of_getElem? hr)
  | node name left right coupling level =>
      obtain ⟨l, hl, h⟩ := Option.bind_eq_some_iff.mp h
      obtain ⟨r, hr, h⟩ := Option.bind_eq_some_iff.mp h
      exact .make (fun s hs => htrees s (mem_of_argument? hl s hs))
        (fun s hs => htrees s (mem_of_argument? hr s hs)) (Option.some.inj h)

/-! ### A sequence of calls -/

/-- **All trees are built**: calls make built trees from built trees. -/
theorem built_of_mem_foldl (calls : List (Call α)) {trees : List (Dendrogram α)}
    (htrees : ∀ t ∈ trees, Built t) : ∀ t ∈ calls.foldl Call.perform trees, Built t := by
  induction calls generalizing trees with
  | nil => exact htrees
  | cons call rest ih =>
      refine ih ?_
      rcases call.perform_cases trees with hsame | ⟨t, ht, hmore⟩
      · rwa [hsame]
      · rw [hmore]
        intro u hu
        rcases List.mem_append.mp hu with hu | hu
        · exact htrees u hu
        · exact List.mem_singleton.mp hu ▸ Call.built_of_outcome? htrees ht

/-- **Whatever is made is well-formed.** -/
theorem wellFormed_of_mem_made {calls : List (Call α)} {t : Dendrogram α} (h : t ∈ made calls) :
    t.WellFormed :=
  (built_of_mem_foldl calls (fun _ ht => absurd ht List.not_mem_nil) t h).wellFormed

/-! ### Every well-formed tree is made -/

/-- A call has the same outcome when the trees it refers to stand later. -/
theorem Call.outcome?_shift (before trees : List (Dendrogram α)) (call : Call α) :
    (call.shift before.length).outcome? (before ++ trees) = call.outcome? trees := by
  have hplace : ∀ place, (before ++ trees)[before.length + place]? = trees[place]? :=
    fun place => by
    rw [List.getElem?_append_right (Nat.le_add_right _ _), Nat.add_sub_cancel_left]
  have hargument : ∀ place : Option ℕ,
      argument? (before ++ trees) (place.map (before.length + ·)) = argument? trees place := by
    rintro (_ | place)
    · rfl
    · exact congrArg (Option.map some) (hplace place)
  cases call with
  | leaf name => rfl
  | merge name left right coupling level => simp only [shift, outcome?, hplace]
  | node name left right coupling level => simp only [shift, outcome?, hargument]

/-- A call leaves the trees before those it refers to as they are. -/
theorem Call.perform_shift (before trees : List (Dendrogram α)) (call : Call α) :
    (call.shift before.length).perform (before ++ trees) = before ++ call.perform trees := by
  unfold perform
  rw [outcome?_shift]
  split
  · exact List.append_assoc _ _ _
  · rfl

/-- A sequence of calls can be made after other trees: it makes the same trees. -/
theorem foldl_perform_shift (before : List (Dendrogram α)) (calls : List (Call α))
    (trees : List (Dendrogram α)) :
    (calls.map (Call.shift before.length)).foldl Call.perform (before ++ trees) =
      before ++ calls.foldl Call.perform trees := by
  induction calls generalizing trees with
  | nil => rfl
  | cons call rest ih =>
      rw [List.map_cons, List.foldl_cons, Call.perform_shift, ih, List.foldl_cons]

/-- One sequence of calls after another makes the trees of both. -/
theorem made_append_shift (calls calls' : List (Call α)) :
    made (calls ++ calls'.map (Call.shift (made calls).length)) = made calls ++ made calls' := by
  have hafter := foldl_perform_shift (made calls) calls' []
  rw [List.append_nil] at hafter
  rw [made, List.foldl_append]
  exact hafter

/-- **The trees that are made** by some sequence of calls are the well-formed ones. -/
theorem exists_mem_made_iff {t : Dendrogram α} : (∃ calls, t ∈ made calls) ↔ t.WellFormed := by
  refine ⟨fun ⟨calls, h⟩ => wellFormed_of_mem_made h, fun h => ?_⟩
  induction t with
  | leaf n c =>
      obtain ⟨hn, hc⟩ := h
      have hok : make? n none none c 0 = .ok (leaf n c) :=
        make?_leaf_eq_ok_iff.mpr ⟨hn, rfl, hc, rfl⟩
      refine ⟨[.node n none none c 0], ?_⟩
      simp [made, Call.perform, Call.outcome?, Call.argument?, hok]
  | node n l r c k ihl ihr =>
      obtain ⟨hn, hk, hd, hl, hr⟩ := h
      obtain ⟨calls, hcalls⟩ := ihl hl
      obtain ⟨calls', hcalls'⟩ := ihr hr
      have hboth := made_append_shift calls calls'
      generalize calls ++ calls'.map (Call.shift (made calls).length) = both at hboth
      obtain ⟨i, hi⟩ := List.mem_iff_getElem?.mp (hboth ▸ List.mem_append_left _ hcalls)
      obtain ⟨j, hj⟩ := List.mem_iff_getElem?.mp (hboth ▸ List.mem_append_right _ hcalls')
      have hok : merge? n l r c (k : ℤ) = .ok (node n l r c k) :=
        merge?_eq_ok_iff.mpr ⟨hn, Int.ofNat_le.mpr hk, hd, rfl⟩
      have hperform : (Call.merge n i j c (k : ℤ)).perform (made both) =
          made both ++ [node n l r c k] := by
        simp [Call.perform, Call.outcome?, hi, hj, hok]
      refine ⟨both ++ [.merge n i j c k], ?_⟩
      rw [made, List.foldl_append, List.foldl_cons, List.foldl_nil]
      exact hperform ▸ List.mem_append_right _ (List.mem_singleton_self _)

/-! ### What is made -/

/-- A **regular** tree: its classes are at its leaves, each at one of them, and every inner
node joins two. -/
structure Regular (t : Dendrogram α) : Prop where
  /-- No class is at two leaves. -/
  nodup_leaves : (t.leaves.map name).Nodup
  /-- The classes are those at the leaves. -/
  mem_classes_iff : ∀ x, x ∈ t.classes ↔ x ∈ t.leaves.map name
  /-- There are as many leaves as classes. -/
  length_leaves : t.leaves.length = t.classCount
  /-- There is one inner node less than there are classes. -/
  length_internalNodes : t.internalNodes.length = t.classCount - 1
  /-- The nodes of the walk are the leaves and the inner nodes. -/
  length_nodes : t.nodes.length = 2 * t.classCount - 1
  /-- An inner node has two children and a positive level. -/
  inner : ∀ v ∈ t.nodes, v.isLeaf = false → (∃ l r, v.children = [l, r]) ∧ 1 ≤ v.level
  /-- A leaf has level zero and coupling zero. -/
  leaf : ∀ v ∈ t.nodes, v.isLeaf = true → v.level = 0 ∧ (v.coupling == 0) = true

omit [Scalar α] in
/-- There are as many inner nodes in the order of levels as in the order of the walk. -/
theorem length_internalNodes (t : Dendrogram α) : t.internalNodes.length = t.inner.length :=
  List.length_mergeSort _

omit [Scalar α] in
/-- The nodes of a tree are its leaves and its inner nodes. -/
theorem length_nodes (t : Dendrogram α) : t.nodes.length = t.leaves.length + t.inner.length := by
  induction t with
  | leaf n c => simp
  | node n l r c k ihl ihr =>
      simp only [nodes_node, leaves_node, inner_node, List.length_cons, List.length_append, ihl,
        ihr]
      omega

/-- There are as many leaves as classes in a well-formed tree. -/
theorem WellFormed.length_leaves {t : Dendrogram α} (h : t.WellFormed) :
    t.leaves.length = t.classCount := by
  rw [classCount, h.classes_perm_leaves.length_eq, List.length_map]

/-- An inner node of a well-formed tree has a positive level. -/
theorem WellFormed.one_le_level {t : Dendrogram α} (h : t.WellFormed) (hinner : t.isLeaf = false) :
    1 ≤ t.level := by
  cases t with
  | leaf n c => cases hinner
  | node n l r c k => exact h.2.1

/-- A leaf that is well-formed has coupling zero. -/
theorem WellFormed.coupling_eq_zero {t : Dendrogram α} (h : t.WellFormed)
    (hleaf : t.isLeaf = true) :
    (t.coupling == 0) = true := by
  cases t with
  | leaf n c => exact h.2
  | node n l r c k => cases hleaf

/-- **Whatever is made is regular**, by any sequence of calls and with any trees passed to
several of them. -/
theorem regular_of_mem_made {calls : List (Call α)} {t : Dendrogram α} (h : t ∈ made calls) :
    t.Regular := by
  have hwell : t.WellFormed := wellFormed_of_mem_made h
  have hleaves := hwell.length_leaves
  have hinner := t.length_leaves
  constructor
  case nodup_leaves => exact hwell.classes_perm_leaves.nodup_iff.mp t.nodup_classes
  case mem_classes_iff => exact fun x => mem_classes
  case length_leaves => exact hleaves
  case length_internalNodes =>
    rw [length_internalNodes]
    omega
  case length_nodes =>
    rw [length_nodes]
    omega
  case inner =>
    intro v hv hnot
    refine ⟨?_, (hwell.of_mem_nodes hv).one_le_level hnot⟩
    cases v with
    | leaf n c => cases hnot
    | node n l r c k => exact ⟨l, r, rfl⟩
  case leaf =>
    intro v hv hleaf
    refine ⟨?_, (hwell.of_mem_nodes hv).coupling_eq_zero hleaf⟩
    cases v with
    | leaf n c => rfl
    | node n l r c k => cases hleaf

/-- A leaf that is passed to two nodes: the union of these two is refused, and a later union of
one of them with another leaf is made. -/
theorem regular_of_mem_made_of_shared_leaf :
    let calls : List (Call ℚ) := [.leaf "A", .leaf "B", .merge "m" 0 1 3 1, .leaf "C",
      .node "n" (some 0) (some 3) 2 1, .merge "p" 2 4 1 2, .merge "q" 2 3 1 2]
    let t : Dendrogram ℚ := .node "q" (.node "m" (.leaf "A" 0) (.leaf "B" 0) 3 1) (.leaf "C" 0) 1 2
    (made calls).length = 6 ∧ t ∈ made calls ∧ t.Regular := by
  intro calls t
  have hmade : made calls = [.leaf "A" 0, .leaf "B" 0, .node "m" (.leaf "A" 0) (.leaf "B" 0) 3 1,
      .leaf "C" 0, .node "n" (.leaf "A" 0) (.leaf "C" 0) 2 1, t] := by
    cbv
  have hmem : t ∈ made calls := by
    rw [hmade]
    simp
  exact ⟨by rw [hmade]; rfl, hmem, regular_of_mem_made hmem⟩

end Linkage.Dendrogram
