import Mathlib
import Linkage.Proofs.Module.Cuts

/-!
# The memory of a cutter

A cutter remembers the averages that it has computed, and its memory outlasts a cut and a
change of the threshold. It is kept by set of classes: the average between classes depends on
nothing else, so that two nodes with the same classes share it, and two nodes with the same
name do not. The memory therefore stays sound, and what is remembered is what would be computed
again.

The modules and the events of a cut do not depend on the memory either. `CutState.forget` takes
it away, and a cut takes sound states that are equal without it to states that are equal
without it.

## Main results

* `CutRule.forget_cut`: a cut does not depend on what is remembered.
* `Cutter.Remembers.perform`: no request makes the memory unsound.
* `Cutter.perform_after`: after any requests a cutter answers like a new one.
-/

namespace Linkage

variable {α : Type}

/-- A cut in progress **without its memory**. -/
def CutState.forget (s : CutState α) : CutState α := { s with averages := [] }

namespace CutState

/-- An event is reported whether averages are remembered or not. -/
theorem forget_report (s : CutState α) (e : Event α) :
    (s.report e).forget = s.forget.report e := rfl

/-- A module is added whether averages are remembered or not. -/
theorem forget_add (s : CutState α) (m : Module α) : (s.add m).forget = s.forget.add m := rfl

/-- What is remembered is forgotten. -/
theorem forget_remember (s : CutState α) (known : Averages α) :
    ({ s with averages := known } : CutState α).forget = s.forget := rfl

end CutState

variable [Scalar α]

namespace CutRule

/-! ### Cuts do not depend on the memory -/

omit [Scalar α] in
/-- Whether the limit is reached does not depend on what is remembered. -/
theorem atLimit_congr_forget (rule : CutRule α) {s s' : CutState α} (h : s.forget = s'.forget) :
    rule.atLimit s = rule.atLimit s' :=
  (congrArg rule.atLimit h :)

/-- An offer does not depend on what is remembered. -/
theorem forget_offer {rule : CutRule α} {s r : CutState α} (hs : Sound rule.weights s.averages)
    (hr : Sound rule.weights r.averages) (h : s.forget = r.forget) (v : Dendrogram α) :
    (rule.offer v s).forget = (rule.offer v r).forget := by
  simp only [offer, (averageOf_of_sound hs v).1, (averageOf_of_sound hr v).1]
  split <;> simp only [CutState.forget_report, CutState.forget_add, CutState.forget_remember, h]

/-- **A cut does not depend on what is remembered.** Induction on the subtree. -/
theorem forget_cut (rule : CutRule α) (t : Dendrogram α) :
    ∀ s s' : CutState α, Sound rule.weights s.averages → Sound rule.weights s'.averages →
      s.forget = s'.forget → (rule.cut t s).forget = (rule.cut t s').forget := by
  induction t with
  | leaf n c =>
      intro s s' hs hs' h
      simp only [cut, rule.atLimit_congr_forget h]
      split
      · rw [CutState.forget_report, CutState.forget_report, h]
      · split
        · simp only [CutState.forget_report, CutState.forget_add, h]
        · exact forget_offer hs hs' h _
  | node n l r c k ihl ihr =>
      intro s s' hs hs' h
      obtain ⟨haverage, hknown⟩ := averageOf_of_sound hs (.node n l r c k)
      obtain ⟨haverage', hknown'⟩ := averageOf_of_sound hs' (.node n l r c k)
      have hreport : ∀ e : Event α, (s.report e).forget = (s'.report e).forget := fun e => by
        rw [CutState.forget_report, CutState.forget_report, h]
      simp only [cut, rule.atLimit_congr_forget h, haverage, haverage']
      split
      · split
        · exact hreport _
        · exact forget_offer (s := s.report _) (r := s'.report _) hs hs' (hreport _) _
      · split
        · exact forget_offer (s := { s with averages := _ }) (r := { s' with averages := _ })
            hknown hknown' h _
        · -- the states in which the left child is cut
          let divided (s : CutState α) (known : Averages α) : CutState α :=
            CutState.report { s with averages := known } (.splitting n
              (averagePairwise (Dendrogram.node n l r c k).classes rule.weights) rule.threshold)
          have hleft := ihl (divided s _) (divided s' _) hknown hknown' (hreport _)
          exact ihr _ _ (cuts_cut rule l (divided s _) hknown).2
            (cuts_cut rule l (divided s' _) hknown').2 hleft

end CutRule

/-! ### Requests to a cutter -/

/-- What can be asked of a cutter. -/
inductive CutterRequest (α : Type) where
  /-- The cut of its dendrogram. -/
  | identify
  /-- The average coupling of a node, which need not belong to its dendrogram. -/
  | average (node : Dendrogram α)
  /-- The check of a list of modules. -/
  | verify (modules : List (Module α))
  /-- Another threshold. -/
  | setThreshold (threshold : α)

/-- What a cutter answers. -/
inductive CutterAnswer (α : Type) where
  /-- What the cut yields. -/
  | outcome (o : CutOutcome α)
  /-- An average coupling. -/
  | average (x : α)
  /-- The check of a list of modules. -/
  | report (r : ConstraintReport α)
  /-- There is nothing to say. -/
  | done

/-- The threshold that is set after a request. -/
def CutterRequest.thresholdAfter (x : α) : CutterRequest α → α
  | setThreshold y => y
  | _ => x

/-- The threshold that is set after some requests: the last one asked for. -/
def currentThreshold (x : α) (rs : List (CutterRequest α)) : α :=
  rs.foldl CutterRequest.thresholdAfter x

namespace Cutter

/-- The answer to a request, and the cutter after it. -/
def perform (c : Cutter α) : CutterRequest α → CutterAnswer α × Cutter α
  | .identify => (.outcome c.identify.1, c.identify.2)
  | .average v => (.average (c.averageCoupling v).1, (c.averageCoupling v).2)
  | .verify ms => (.report (c.verify ms), c)
  | .setThreshold x => (.done, c.setThreshold x)

/-- The cutter after some requests. -/
def after (c : Cutter α) (rs : List (CutterRequest α)) : Cutter α :=
  rs.foldl (fun c r => (c.perform r).2) c

/-- A cutter **remembers** for a new one when it differs from it in its memory alone, and its
memory is sound. -/
structure Remembers (c new : Cutter α) : Prop where
  /-- The two have the same dendrogram. -/
  root_eq : c.root = new.root
  /-- The two have the same rule. -/
  rule_eq : c.rule = new.rule
  /-- The new cutter remembers nothing. -/
  averages_eq : new.averages = []
  /-- The known averages are those of their classes. -/
  sound : CutRule.Sound c.rule.weights c.averages

section

variable {c new : Cutter α}

/-- The state that a cut has come to at its end. -/
def finish (c : Cutter α) : CutState α :=
  let start : CutState α := ⟨[], c.averages, [.cutting c.rule.maxModules c.rule.threshold]⟩
  match c.root with
  | none => start
  | some t => c.rule.cut t start

/-- The outcome of a cut depends on the modules and the events alone. -/
theorem identify_congr_forget (hrule : c.rule = new.rule)
    (h : c.finish.forget = new.finish.forget) : c.identify.1 = new.identify.1 := by
  have hmodules : c.finish.modules = new.finish.modules :=
    (congrArg CutState.modules h :)
  have hevents : c.finish.events = new.finish.events :=
    (congrArg CutState.events h :)
  have houtcome : ∀ d : Cutter α, d.identify.1 =
      ⟨d.finish.modules, d.verify d.finish.modules, d.finish.events ++
        [.cutComplete d.finish.modules.length (d.verify d.finish.modules).withinBudget
          (d.verify d.finish.modules).meetsMinCoupling]⟩ := fun _ => rfl
  rw [houtcome, houtcome, hmodules, hevents]
  simp only [verify, hrule]

namespace Remembers

variable (h : Remembers c new)
include h

/-- Without the memory both cuts come to the same end, and the memory stays sound. -/
theorem forget_finish : c.finish.forget = new.finish.forget ∧
    CutRule.Sound c.rule.weights c.finish.averages := by
  have hsound : CutRule.Sound c.rule.weights new.averages := h.averages_eq ▸ CutRule.sound_nil _
  unfold finish
  rw [← h.root_eq, ← h.rule_eq]
  cases c.root with
  | none => exact ⟨rfl, h.sound⟩
  | some t =>
      exact ⟨c.rule.forget_cut t _ _ h.sound hsound rfl, (c.rule.cuts_cut t _ h.sound).2⟩

/-- **A request is answered as by the new cutter**, which is the one to compare with
afterwards, up to its threshold. -/
theorem perform (r : CutterRequest α) : (c.perform r).1 = (new.perform r).1 ∧
    Remembers (c.perform r).2 (new.setThreshold (r.thresholdAfter new.rule.threshold)) := by
  obtain ⟨hfinish, hsound⟩ := h.forget_finish
  cases r with
  | identify =>
      have houtcome := identify_congr_forget h.rule_eq hfinish
      exact ⟨congrArg CutterAnswer.outcome houtcome, h.root_eq, h.rule_eq, h.averages_eq, hsound⟩
  | average v =>
      obtain ⟨haverage, hknown⟩ := CutRule.averageOf_of_sound h.sound v
      have hnew : CutRule.Sound new.rule.weights new.averages := h.averages_eq ▸ CutRule.sound_nil _
      have haverage' := (CutRule.averageOf_of_sound hnew v).1
      have hx : (c.averageCoupling v).1 = (new.averageCoupling v).1 :=
        haverage.trans ((congrArg _ (congrArg _ h.rule_eq)).trans haverage'.symm)
      exact ⟨congrArg CutterAnswer.average hx, h.root_eq, h.rule_eq, h.averages_eq, hknown⟩
  | verify ms =>
      have hreport : c.verify ms = new.verify ms := by simp only [verify, h.rule_eq]
      exact ⟨congrArg CutterAnswer.report hreport, h⟩
  | setThreshold x =>
      refine ⟨rfl, h.root_eq, ?_, h.averages_eq, h.sound⟩
      simp only [Cutter.perform, setThreshold, h.rule_eq, CutterRequest.thresholdAfter]

end Remembers

end

/-- **After any requests a cutter answers like a new one** that is made with the threshold that
is set. Induction on the requests before, each of which leaves the memory sound. -/
theorem perform_after (root : Option (Dendrogram α)) (totalClasses : Int) (threshold : α)
    (weights : CouplingWeights α) (keepSingletons : Bool) (naming : String)
    (rs : List (CutterRequest α)) (r : CutterRequest α) :
    (((ofTree root totalClasses threshold weights keepSingletons naming).after rs).perform r).1 =
      ((ofTree root totalClasses (currentThreshold threshold rs) weights keepSingletons
        naming).perform r).1 := by
  let new (x : α) : Cutter α := ofTree root totalClasses x weights keepSingletons naming
  suffices hrun : ∀ (c : Cutter α) (x : α), Remembers c (new x) →
      Remembers (c.after rs) (new (currentThreshold x rs)) from
    ((hrun _ threshold ⟨rfl, rfl, rfl, CutRule.sound_nil weights⟩).perform r).1
  induction rs with
  | nil => exact fun _ _ h => h
  | cons first rest ih => exact fun c x h => ih _ _ (h.perform first).2

end Cutter

end Linkage
