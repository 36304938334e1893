import Mathlib
import Linkage.Proofs.Lookup
import Linkage.Schema.Check

/-!
# Values that follow rules

A value follows rules when it does nothing against them. There is one lemma for each rule that
the schemas use: what it asks of a value, or of a text, a list or an object when it is made for
these.

A closed object has some required fields, each with rules of its own, and no others. An object
with just these fields follows such rules when its fields do.

## Main results

* `listViolations_cons_eq_nil_iff`: rules are followed one by one.
* `Rule.violations_fields_eq_nil_iff`: the fields of an object follow the rules for them.
* `Rule.violations_branch_eq_nil_iff`: a branch asks for the rules that its condition leads to.
* `listViolations_record`: an object with the fields of a closed object.
* `firstViolation_eq_none_iff`: records without a violation.
-/

namespace Linkage.Schema

variable {α : Type}

/-- What is reported unless a condition holds. -/
theorem ite_nil_here {p : Prop} [Decidable p] {o : Offence α} :
    (if p then [] else here o) = [] ↔ p := by
  by_cases hp : p <;> simp [hp, here]

/-- What is reported when a condition holds. -/
theorem ite_here_nil {p : Prop} [Decidable p] {o : Offence α} :
    (if p then here o else []) = [] ↔ ¬ p := by
  by_cases hp : p <;> simp [hp, here]

variable [Scalar α] {v : Value α} {es : List (Value α × Value α)}

/-! ### Lists of rules -/

@[simp] theorem listViolations_nil (v : Value α) : listViolations v [] = [] := rfl

/-- The violations of the rules are listed in the order of the rules. -/
theorem listViolations_cons (v : Value α) (r : Rule) (rules : List Rule) :
    listViolations v (r :: rules) = r.violations v ++ listViolations v rules := rfl

/-- A value keeps some rules when it keeps each of them. -/
@[simp] theorem listViolations_cons_eq_nil_iff {r : Rule} {rules : List Rule} :
    listViolations v (r :: rules) = [] ↔ r.violations v = [] ∧ listViolations v rules = [] :=
  List.append_eq_nil_iff

/-- Fields follow the rules for them when every field that there is does. -/
theorem fieldViolations_eq_nil_iff {rules : List (String × List Rule)} :
    fieldViolations es rules = [] ↔
      ∀ r ∈ rules, ∀ w, Value.field? r.1 es = some w → listViolations w r.2 = [] := by
  induction rules with
  | nil => exact iff_of_true rfl (by simp)
  | cons r rest ih =>
      change _ ++ fieldViolations es rest = [] ↔ _
      rw [List.append_eq_nil_iff, ih, List.forall_mem_cons]
      refine and_congr_left fun _ => ?_
      cases Value.field? r.1 es <;> simp

/-! ### Rules for any value -/

namespace Rule

/-- The rule is kept by the values of one of the kinds allowed. -/
@[simp] theorem violations_kinds_eq_nil_iff {allowed : List Kind} :
    (kinds allowed).violations v = [] ↔ allowed.any (hasKind v) = true :=
  ite_nil_here

/-- The rule is kept by the values that are not below the bound. -/
@[simp] theorem violations_atLeast_eq_nil_iff {bound : Int} :
    (atLeast bound).violations v = [] ↔ ¬ isBelow bound v = true :=
  ite_here_nil

/-- The rule is kept by the values that are not above the bound. -/
@[simp] theorem violations_atMost_eq_nil_iff {bound : Int} :
    (atMost bound).violations v = [] ↔ ¬ isAbove bound v = true :=
  ite_here_nil

/-- The rule is kept by the values that equal the constant. -/
@[simp] theorem violations_constant_eq_nil_iff {c : Constant} :
    (constant c).violations v = [] ↔ equals v c = true :=
  ite_nil_here

/-- A branch asks for its first rules of a value that follows the condition, and else for the
second. -/
@[simp] theorem violations_branch_eq_nil_iff {condition yes no : List Rule} :
    (branch condition yes no).violations v = [] ↔
      if listViolations v condition = [] then listViolations v yes = [] else
        listViolations v no = [] := by
  have hbranch : (branch condition yes no).violations v =
      if (listViolations v condition).isEmpty then listViolations v yes else listViolations v
        no := rfl
  rw [hbranch]
  by_cases h : listViolations v condition = [] <;> simp [h]

/-- A value follows one of some alternatives when there is one whose rules it follows. -/
@[simp] theorem violations_oneOf_eq_nil_iff {alternatives : List (List Rule)} :
    (oneOf alternatives).violations v = [] ↔
      ∃ rules ∈ alternatives, listViolations v rules = [] := by
  have hfollows : followsOne v alternatives = true ↔
      ∃ rules ∈ alternatives, listViolations v rules = [] := by
    induction alternatives with
    | nil => exact iff_of_false Bool.false_ne_true (by simp)
    | cons rules rest ih =>
        change ((listViolations v rules).isEmpty || followsOne v rest) = true ↔ _
        rw [Bool.or_eq_true, ih, List.isEmpty_iff, List.exists_mem_cons_iff]
  rw [← hfollows]
  exact ite_nil_here

/-! ### Rules for texts and lists -/

/-- The rule is kept by the texts that are not empty. -/
@[simp] theorem violations_nonEmpty_text_eq_nil_iff {s : String} :
    nonEmpty.violations (.text s : Value α) = [] ↔ s ≠ "" := by
  have h : nonEmpty.violations (.text s : Value α) =
      if s.isEmpty then here (.empty (.text s)) else [] := rfl
  rw [h, ite_here_nil, String.isEmpty_iff]

/-- A list follows rules for its items when every item follows them. -/
theorem violations_items_eq_nil_iff {rules : List Rule} {xs : List (Value α)} :
    (items rules).violations (.list xs) = [] ↔ ∀ x ∈ xs, listViolations x rules = [] := by
  have h : (items rules).violations (.list xs) = xs.zipIdx.flatMap fun x =>
      (listViolations x.1 rules).map (Violation.within (.item x.2)) := rfl
  rw [h, List.flatMap_eq_nil_iff]
  constructor
  · intro hitems x hx
    obtain ⟨i, hi⟩ := List.mem_iff_getElem?.mp hx
    exact List.map_eq_nil_iff.mp (hitems (x, i) (List.mem_zipIdx_iff_getElem?.mpr hi))
  · rintro hitems ⟨x, i⟩ hx
    exact List.map_eq_nil_iff.mpr (hitems x (List.fst_mem_of_mem_zipIdx hx))

/-! ### Rules for objects -/

/-- An object has the fields that are required. -/
theorem violations_required_eq_nil_iff {names : List String} :
    (required names).violations (.map es) = [] ↔
      ∀ name ∈ names, (Value.field? name es).isSome = true := by
  have h : (required names).violations (.map es) =
      (lackingNames names es).flatMap fun name => here (.lacking name) := rfl
  rw [h, List.flatMap_eq_nil_iff]
  simp [lackingNames, here, Option.isSome_iff_ne_none]

/-- The fields of an object follow the rules for them when every field that there is does. -/
theorem violations_fields_eq_nil_iff {rules : List (String × List Rule)} :
    (fields rules).violations (.map es) = [] ↔
      ∀ r ∈ rules, ∀ w, Value.field? r.1 es = some w → listViolations w r.2 = [] :=
  fieldViolations_eq_nil_iff

/-- The other fields of an object follow rules when each of them does. -/
theorem violations_otherFields_eq_nil_iff {known : List String} {rules : List Rule} :
    (otherFields known rules).violations (.map es) = [] ↔
      ∀ e ∈ es, isAmong known e.1 = false → listViolations e.2 rules = [] := by
  have h : (otherFields known rules).violations (.map es) =
      (es.filter fun e => !isAmong known e.1).flatMap fun e =>
        (listViolations e.2 rules).map (Violation.within (.field e.1)) := rfl
  rw [h, List.flatMap_eq_nil_iff]
  simp

/-- An object has no other fields when all its keys are among the names. -/
theorem violations_noOtherFields_eq_nil_iff {names : List String} :
    (noOtherFields names).violations (.map es) = [] ↔ ∀ e ∈ es, isAmong names e.1 = true := by
  have hothers : (es.filter fun e => !isAmong names e.1).map Prod.fst = [] ↔
      ∀ e ∈ es, isAmong names e.1 = true := by
    simp [List.filter_eq_nil_iff]
  rw [← hothers, violations]
  cases (es.filter fun e => !isAmong names e.1).map Prod.fst <;> simp [here]

end Rule

/-! ### Labels -/

/-- A value is a label when it is a text that is not empty. -/
theorem listViolations_label_eq_nil_iff :
    listViolations v label = [] ↔ ∃ s, v = .text s ∧ s ≠ "" := by
  rw [label, listViolations_cons_eq_nil_iff, Rule.violations_kinds_eq_nil_iff]
  cases v with
  | text s => simp [hasKind]
  | _ => simp [hasKind]

/-! ### Records -/

/-- There is no first violation when no record violates the schema. -/
theorem firstViolation_eq_none_iff {s : Schema} {records : List (Value α)} :
    firstViolation s records = none ↔ ∀ r ∈ records, s.violations r = [] := by
  rw [firstViolation, List.findSome?_eq_none_iff]
  constructor
  · intro h r hr
    obtain ⟨i, hi⟩ := List.mem_iff_getElem?.mp hr
    have hzip : (r, i) ∈ records.zipIdx := List.mem_zipIdx_iff_getElem?.mpr hi
    simpa using h _ hzip
  · rintro h ⟨r, i⟩ hr
    simp [h r (List.fst_mem_of_mem_zipIdx hr)]

/-! ### Objects with given fields -/

section Objects

variable {fields : List (String × Value α)}

omit [Scalar α] in
/-- A field of an object is looked up under its name. -/
theorem field?_record_eq_find (name : String) (fields : List (String × Value α)) :
    Value.field? name (fields.map fun f => (.text f.1, f.2)) = OrderedMap.find name fields := by
  induction fields with
  | nil => rfl
  | cons f rest ih => rw [List.map_cons, Value.field?, OrderedMap.find, ih]

omit [Scalar α] in
/-- A field of an object is found under its name. -/
theorem field?_record_iff (hnames : (fields.map Prod.fst).Nodup) {name : String} {v : Value α} :
    Value.field? name (fields.map fun f => (.text f.1, f.2)) = some v ↔ (name, v) ∈ fields := by
  rw [field?_record_eq_find, OrderedMap.find_eq_some_iff hnames]

/-- The fields of an object follow rules when every field with rules follows those. -/
theorem violations_fields_record_iff (hnames : (fields.map Prod.fst).Nodup)
    {rules : List (String × List Rule)} :
    (Rule.fields rules).violations (.record fields) = [] ↔
      ∀ r ∈ rules, ∀ v, (r.1, v) ∈ fields → listViolations v r.2 = [] := by
  rw [Value.record, Rule.violations_fields_eq_nil_iff]
  simp only [field?_record_iff hnames]

/-- **An object with the fields of a closed schema** has nothing but the further rules of the
schema to violate, when each field follows the rules for it. -/
theorem listViolations_record {rules : List (String × List Rule)} {names : List String}
    {further : List Rule} (hrules : rules.map Prod.fst = names)
    (hnames : (fields.map Prod.fst).Nodup)
    (h : List.Forall₂ (fun f r => f.1 = r.1 ∧ listViolations f.2 r.2 = []) fields rules) :
    listViolations (.record fields)
        (.kinds [.object] :: .required names :: .fields rules :: .noOtherFields names :: further) =
      listViolations (.record fields) further := by
  subst hrules
  have hsame : fields.map Prod.fst = rules.map Prod.fst := by
    rw [← List.forall₂_eq_eq_eq, List.forall₂_map_left_iff, List.forall₂_map_right_iff]
    exact h.imp fun _ _ => And.left
  have hkind : (Rule.kinds [.object]).violations (.record fields) = [] :=
    Rule.violations_kinds_eq_nil_iff.mpr rfl
  have hrequired : (Rule.required (rules.map Prod.fst)).violations (.record fields) = [] := by
    rw [Value.record, Rule.violations_required_eq_nil_iff, ← hsame]
    intro name hname
    obtain ⟨⟨_, v⟩, hv, rfl⟩ := List.mem_map.mp hname
    simp [(field?_record_iff hnames).mpr hv]
  have hfields : (Rule.fields rules).violations (.record fields) = [] := by
    rw [violations_fields_record_iff hnames]
    intro r hr v hv
    obtain ⟨i, hi, rfl⟩ := List.mem_iff_getElem.mp hr
    have hi' : i < fields.length := h.length_eq ▸ hi
    obtain ⟨hname, hfollows⟩ := h.get hi' hi
    have hfield : fields[i] = (rules[i].1, v) :=
      List.inj_on_of_nodup_map hnames (List.getElem_mem hi') hv hname
    have hvalue : fields[i].2 = v := congrArg Prod.snd hfield
    exact hvalue ▸ hfollows
  have hothers : (Rule.noOtherFields (rules.map Prod.fst)).violations (.record fields) = [] := by
    rw [Value.record, Rule.violations_noOtherFields_eq_nil_iff, ← hsame]
    intro e he
    obtain ⟨f, hf, rfl⟩ := List.mem_map.mp he
    simpa [isAmong] using ⟨f.2, hf⟩
  simp only [listViolations_cons, hkind, hrequired, hfields, hothers, List.nil_append]

end Objects

end Linkage.Schema
