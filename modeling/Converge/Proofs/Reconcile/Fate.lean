import Converge.Proofs.Convergence
import Converge.Proofs.Provider.Memory

/-!
# What becomes of a record

In a call that carries out a plan every live resource is changed once at most. A record says in the
end how its resource has been left, or it is gone, with its resource or without it.

Main statements: `Turn.Carries.fate` and `Turn.Carries.recorded_of_created`.
-/

namespace Converge

open Reconcile Synthesis

/-- What is recorded of a live resource. -/
def Record.holding (r : Record) : Holding := (r.kind, r.attributes)

theorem filterMap_eq_singleton {α β : Type} {f : α → Option β} {l : List α}
    (h : l.Pairwise fun a b => ∀ x, f a = some x → f b = none) {a : α} {x : β} (ha : a ∈ l)
    (hx : f a = some x) : l.filterMap f = [x] := by
  induction l with
  | nil => cases ha
  | cons first rest ih =>
    obtain ⟨hfirst, hrest⟩ := List.pairwise_cons.1 h
    rcases List.mem_cons.1 ha with rfl | ha
    · rw [List.filterMap_cons_some hx, List.filterMap_eq_nil_iff.2 fun b hb => hfirst b hb x hx]
    · have hnone : f first = none := by
        refine Option.eq_none_iff_forall_ne_some.2 fun y hy => ?_
        exact nomatch (hfirst a ha y hy).symm.trans hx
      rw [List.filterMap_cons_none hnone, ih hrest ha]

namespace Turn

variable {turn : Turn} {id : String}

/-- Whether a call drops the record of a node, and leaves the resource in place: it is retained, or
its node is declared as existing. -/
inductive Disowns (turn : Turn) (id : String) (r : Record) : Prop
  | retained {outcome : Outcome} (policy : r.removalPolicy = .retain)
    (settled : .settled outcome ∈ turn.events) (nodeId : outcome.nodeId = id)
    (action : outcome.action = .delete) (status : outcome.status = .succeeded)
  | adopted {node : Node} {outcome : Outcome} (declared : turn.Declares node)
    (existing : node.isExisting = true) (declaredAs : node.id = id)
    (settled : .settled outcome ∈ turn.events) (nodeId : outcome.nodeId = id)
    (action : outcome.action = .noop) (status : outcome.status = .succeeded)

/-- Whether the record of a node is dropped, with its resource or without it. -/
def Drops (turn : Turn) (id : String) (r : Record) : Prop :=
  changesOf r.providerId turn.events = [none] ∨ turn.Disowns id r

/-- What can be recorded of a node after a call. -/
inductive Fate (turn : Turn) (id : String) : Option Record → Prop
  | absent (unrecorded : (recordsOf turn.before).get? id = none) : Fate turn id none
  | kept {old r : Record} (recorded : (recordsOf turn.before).get? id = some old)
    (providerId : r.providerId = old.providerId) (holding : r.holding = old.holding)
    (unchanged : changesOf old.providerId turn.events = []) : Fate turn id (some r)
  | changed {r : Record} (changes : changesOf r.providerId turn.events = [some r.holding])
    (former : ∀ old, (recordsOf turn.before).get? id = some old →
      old.providerId = r.providerId ∨ turn.Drops id old) : Fate turn id (some r)
  | dropped {old : Record} (recorded : (recordsOf turn.before).get? id = some old)
    (drops : turn.Drops id old) : Fate turn id none

/-- A resource that its node is not recorded with any more has been dropped. -/
theorem Fate.drops {result : Option Record} (h : turn.Fate id result) {old : Record}
    (hold : (recordsOf turn.before).get? id = some old)
    (hnot : ∀ r, result = some r → r.providerId ≠ old.providerId) : turn.Drops id old := by
  cases h with
  | absent unrecorded => exact nomatch hold.symm.trans unrecorded
  | kept recorded hsame =>
    obtain rfl := Option.some.inj (hold.symm.trans recorded)
    exact absurd hsame (hnot _ rfl)
  | changed _ former => exact (former old hold).resolve_left fun hsame => hnot _ rfl hsame.symm
  | dropped recorded drops =>
    obtain rfl := Option.some.inj (hold.symm.trans recorded)
    exact drops

/-- Whether a call carries out a plan that fits what is recorded, and takes in all of its workers,
while the provider gives out no id again. -/
structure Carries (turn : Turn) (issued : List String) (plan : Plan) (settings : RunSettings)
    (m : Moment) : Prop where
  fits : plan.Fits (recordsOf turn.before)
  existing : ∀ step ∈ plan.steps, step.action ≠ .delete → step.managed = false →
    ∃ node, turn.Declares node ∧ node.id = step.nodeId ∧ node.isExisting = true
  run : Execution settings plan turn.events m
  quiet : turn.events.countP Event.isStart = turn.events.countP Event.isCollection
  owned : Owned issued (recordsOf turn.before)
  fresh : (issued ++ turn.issued).Nodup

namespace Carries

variable {issued : List String} {plan : Plan} {settings : RunSettings} {m : Moment}

/-! ## Changes -/

/-- What is changed is created, or is the resource that is recorded for the node of the step. -/
theorem change_cases (h : turn.Carries issued plan settings m) {event : Event}
    (hevent : event ∈ turn.events) {held : Option Holding}
    (hchange : event.change? = some (id, held)) : ∃ step, event.answered? = some step ∧
      plan.steps[step.index]? = some step ∧
      (step.action = .create ∧ event.issued? = some id ∨
        (step.action = .delete ∨ step.action = .update) ∧
          ∃ r, (recordsOf turn.before).get? step.nodeId = some r ∧ r.providerId = id) := by
  cases event with
  | cancelled | settled | started | called | refused | collected => cases hchange
  | answered step request answer =>
    obtain ⟨hplanned, -, attributes, hasks⟩ := h.run.asks_of_answered hevent
    have hmem := List.mem_of_getElem? hplanned
    refine ⟨step, rfl, hplanned, ?_⟩
    cases hasks with
    | create action =>
      refine .inl ⟨action, ?_⟩
      cases answer with
      | ok created =>
        obtain ⟨rfl, -⟩ := Prod.mk.inj (Option.some.inj hchange)
        rfl
      | failed => cases hchange
      | crashed => cases hchange
    | @update other action recorded =>
      obtain ⟨r, hr, hid⟩ := h.fits.recorded hmem (.inr action)
      obtain rfl := Option.some.inj (recorded.symm.trans hid)
      refine .inr ⟨.inr action, r, hr, ?_⟩
      cases answer with
      | ok => exact congrArg Prod.fst (Option.some.inj hchange)
      | failed => cases hchange
      | crashed => cases hchange
    | @delete other action recorded =>
      obtain ⟨r, hr, hid⟩ := h.fits.recorded hmem (.inl action)
      obtain rfl := Option.some.inj (recorded.symm.trans hid)
      refine .inr ⟨.inl action, r, hr, ?_⟩
      cases answer with
      | ok => exact congrArg Prod.fst (Option.some.inj hchange)
      | failed cause =>
        rw [Event.change?] at hchange
        split at hchange
        · exact congrArg Prod.fst (Option.some.inj hchange)
        · cases hchange
      | crashed => cases hchange

theorem not_issued_of_recorded (h : turn.Carries issued plan settings m) {r : Record}
    (hr : (recordsOf turn.before).get? id = some r) {event : Event} (hevent : event ∈ turn.events) :
    event.issued? ≠ some r.providerId := by
  intro hissued
  have hmem : r.providerId ∈ turn.issued := List.mem_filterMap.2 ⟨event, hevent, hissued⟩
  exact (List.nodup_append.1 h.fresh).2.2 _ (h.owned.issued hr) _ hmem rfl

theorem change_of_recorded (h : turn.Carries issued plan settings m) {r : Record}
    (hr : (recordsOf turn.before).get? id = some r) {event : Event} (hevent : event ∈ turn.events)
    {held : Option Holding} (hchange : event.change? = some (r.providerId, held)) :
    ∃ step, event.answered? = some step ∧ plan.steps[step.index]? = some step ∧
      (step.action = .delete ∨ step.action = .update) ∧ step.nodeId = id := by
  obtain ⟨step, hanswered, hplanned, ⟨-, hissued⟩ | ⟨haction, other, hother, hsame⟩⟩ :=
    h.change_cases hevent hchange
  · exact absurd hissued (h.not_issued_of_recorded hr hevent)
  · exact ⟨step, hanswered, hplanned, haction, h.owned.distinct hother hr hsame⟩

/-- Every live resource is changed once at most. -/
theorem pairwise_changeOf (h : turn.Carries issued plan settings m) (id : String) :
    turn.events.Pairwise fun a b => ∀ held, a.changeOf? id = some held → b.changeOf? id = none := by
  have hissued : turn.events.Pairwise fun a b =>
      ∀ x, a.issued? = some x → ∀ y, b.issued? = some y → x ≠ y :=
    List.pairwise_filterMap.1 (List.nodup_append.1 h.fresh).2.1
  refine (h.run.pairwise_changes.and hissued).imp_of_mem fun {a b} ha hb hab held hheld => ?_
  obtain ⟨hanswers, hissues⟩ := hab
  refine Option.eq_none_iff_forall_ne_some.2 fun held' hheld' => ?_
  rw [Event.changeOf?_eq_some_iff] at hheld hheld'
  obtain ⟨step, hanswered, hplanned, hcases⟩ := h.change_cases ha hheld
  obtain ⟨step', hanswered', hplanned', hcases'⟩ := h.change_cases hb hheld'
  rcases hcases with ⟨-, hnew⟩ | ⟨haction, r, hr, hid⟩
  · rcases hcases' with ⟨-, hnew'⟩ | ⟨-, r, hr, hid⟩
    · exact hissues _ hnew _ hnew' rfl
    · exact h.not_issued_of_recorded hr ha (hid ▸ hnew)
  · rcases hcases' with ⟨-, hnew'⟩ | ⟨haction', r', hr', hid'⟩
    · exact h.not_issued_of_recorded hr hb (hid ▸ hnew')
    · have hnode := h.owned.distinct hr hr' (hid.trans hid'.symm)
      have hindex := h.fits.changesOnce hplanned hplanned' haction haction' hnode
      obtain rfl := Option.some.inj (hplanned.symm.trans (hindex ▸ hplanned'))
      exact hanswers step _ hanswered hheld hanswered'

theorem changesOf_eq (h : turn.Carries issued plan settings m) {event : Event}
    (hevent : event ∈ turn.events) {held : Option Holding}
    (hchange : event.change? = some (id, held)) : changesOf id turn.events = [held] :=
  filterMap_eq_singleton (h.pairwise_changeOf id) hevent (Event.changeOf?_eq_some_iff.2 hchange)

/-- The resource of a record stays as it is unless a step of its node succeeds that deletes or
updates it. -/
theorem changesOf_eq_nil (h : turn.Carries issued plan settings m) {r : Record}
    (hr : (recordsOf turn.before).get? id = some r)
    (hnone : ∀ {step : Step}, plan.steps[step.index]? = some step → step.nodeId = id →
      (step.action = .delete ∨ step.action = .update) →
      m.statusAt? step.index ≠ some .succeeded) :
    changesOf r.providerId turn.events = [] := by
  refine List.filterMap_eq_nil_iff.2 fun event hevent => ?_
  refine Option.eq_none_iff_forall_ne_some.2 fun held hheld => ?_
  have hchange := Event.changeOf?_eq_some_iff.1 hheld
  obtain ⟨step, hanswered, hplanned, haction, hid⟩ := h.change_of_recorded hr hevent hchange
  exact hnone hplanned hid haction
    (h.run.succeeded_of_change h.quiet hevent hanswered hchange)

/-! ## Records -/

variable {k : Nat} {step : Step} {outcome : Outcome} {later : Instant}

/-- A deletion that succeeds drops the record of its node. -/
theorem drops_of_deletion (h : turn.Carries issued plan settings m)
    (hstep : plan.steps[k]? = some step) (hdelete : step.action = .delete)
    (houtcome : m.coordinator.report.steps[k]? = some outcome)
    (hsucceeded : outcome.status = .succeeded) {old : Record}
    (hold : (recordsOf turn.before).get? step.nodeId = some old) : turn.Drops step.nodeId old := by
  obtain ⟨r, hr, hid, hpolicy⟩ := h.fits.deletes step (List.mem_of_getElem? hstep) hdelete
  obtain rfl := Option.some.inj (hold.symm.trans hr)
  have hlabel := h.run.sound.schedule.label hstep houtcome
  cases h.run.attested.1 hstep houtcome hsucceeded with
  | settled event calls =>
    refine .inr (.retained ?_ event hlabel.nodeId (hlabel.action.trans hdelete) hsucceeded)
    rw [← hpolicy]
    cases hkept : step.removalPolicy with
    | retain => rfl
    | destroy =>
      exact nomatch calls.symm.trans ((Step.callsProvider_of_delete hdelete).2 hkept)
  | created action => exact nomatch hdelete.symm.trans action
  | updated action => exact nomatch hdelete.symm.trans action
  | @deleted other reply action recorded event gone =>
    obtain rfl := Option.some.inj (recorded.symm.trans hid)
    exact .inl (h.changesOf_eq event (Event.change?_delete gone))

/-- A node that is created is recorded with the resource that has been created for it. -/
theorem created_of_step (h : turn.Carries issued plan settings m)
    (hstep : plan.steps[k]? = some step) (hcreate : step.action = .create)
    (houtcome : m.coordinator.report.steps[k]? = some outcome)
    (hsucceeded : outcome.status = .succeeded) : ∃ (r : Record) (created : CreatedResource),
      (turn.applied plan m.coordinator.report later).get? step.nodeId = some r ∧
        r.providerId = created.providerId ∧ r.holding = (step.kind, outcome.applied) ∧
        .answered step (.create step.kind outcome.applied) (.ok created) ∈ turn.events := by
  obtain ⟨created, hevent, -, hid⟩ :=
    (h.run.attested.1 hstep houtcome hsucceeded).of_create hcreate
  obtain ⟨sequence, hnew⟩ := State.get?_recordStep_create hcreate
  have hdelete : step.action ≠ .delete := by simp [hcreate]
  exact ⟨_, created, (h.fits.get?_of_step h.run hstep hdelete houtcome hsucceeded).trans hnew,
    congrArg (·.getD "") hid, rfl, hevent⟩

theorem changesOf_eq_nil_of_noop (h : turn.Carries issued plan settings m)
    (hstep : plan.steps[k]? = some step) (hnoop : step.action = .noop) {old : Record}
    (hold : (recordsOf turn.before).get? step.nodeId = some old) :
    changesOf old.providerId turn.events = [] := by
  have hmem := List.mem_of_getElem? hstep
  have hdelete : step.action ≠ .delete := by simp [hnoop]
  refine h.changesOf_eq_nil hold fun {other} hother hid haction _ => ?_
  rcases haction with hother' | hother'
  · have hcreate := h.fits.replaces (List.mem_of_getElem? hother) hmem hother' hdelete hid
    exact nomatch hnoop.symm.trans hcreate
  · have hsame := h.fits.single hother hstep (by simp [hother']) hdelete hid
    rw [hsame, hstep] at hother
    obtain rfl := Option.some.inj hother
    exact nomatch hnoop.symm.trans hother'

theorem fate_of_create (h : turn.Carries issued plan settings m)
    (hstep : plan.steps[k]? = some step) (hcreate : step.action = .create)
    (houtcome : m.coordinator.report.steps[k]? = some outcome)
    (hsucceeded : outcome.status = .succeeded) :
    turn.Fate step.nodeId ((turn.applied plan m.coordinator.report later).get? step.nodeId) := by
  obtain ⟨r, created, hr, hid, hholding, hevent⟩ :=
    h.created_of_step hstep hcreate houtcome hsucceeded
  rw [hr]
  refine .changed ?_ fun old hold => .inr ?_
  · rw [hid, hholding]
    exact h.changesOf_eq hevent rfl
  · -- What stood in its place has been deleted before.
    obtain ⟨l, hl, deletion, hdeletion, haction, hnode⟩ :=
      h.fits.deletesFirst (List.mem_of_getElem? hstep) hcreate hold
    have hdone := h.run.sound.schedule.begun hstep
      (.inr (Schedule.statusAt?_eq_some_iff.2 ⟨outcome, houtcome, hsucceeded⟩)) l hl
    obtain ⟨earlier, hearlier, hended⟩ := Schedule.statusAt?_eq_some_iff.1 hdone
    rw [← hnode] at hold ⊢
    exact h.drops_of_deletion hdeletion haction hearlier hended hold

theorem fate_of_update (h : turn.Carries issued plan settings m)
    (hstep : plan.steps[k]? = some step) (hupdate : step.action = .update)
    (houtcome : m.coordinator.report.steps[k]? = some outcome)
    (hsucceeded : outcome.status = .succeeded) :
    turn.Fate step.nodeId ((turn.applied plan m.coordinator.report later).get? step.nodeId) := by
  obtain ⟨old, hold, hid, hkind⟩ := h.fits.updates step (List.mem_of_getElem? hstep) hupdate
  obtain ⟨providerId, fresh, hid', hevent, -, -⟩ :=
    (h.run.attested.1 hstep houtcome hsucceeded).of_update hupdate
  obtain rfl := Option.some.inj (hid.symm.trans hid')
  rw [applied, h.fits.get?_of_step h.run hstep (by simp [hupdate]) houtcome hsucceeded,
    State.get?_recordStep_update hupdate,
    h.fits.get?_take h.run hstep (by simp [hupdate]) (by simp [hupdate]), get?_getD_new, hold]
  refine .changed ?_ fun old' hold' => .inl ?_
  · rw [h.changesOf_eq hevent rfl, hkind]
    rfl
  · rw [Option.some.inj (hold'.symm.trans hold)]

theorem fate_of_noop (h : turn.Carries issued plan settings m)
    (hstep : plan.steps[k]? = some step) (hnoop : step.action = .noop)
    (houtcome : m.coordinator.report.steps[k]? = some outcome)
    (hsucceeded : outcome.status = .succeeded) :
    turn.Fate step.nodeId ((turn.applied plan m.coordinator.report later).get? step.nodeId) := by
  rw [applied, h.fits.get?_of_step h.run hstep (by simp [hnoop]) houtcome hsucceeded,
    State.get?_recordStep_noop hnoop,
    h.fits.get?_take h.run hstep (by simp [hnoop]) (by simp [hnoop]), get?_getD_new]
  cases hold : (recordsOf turn.before).get? step.nodeId with
  | none =>
    rw [Option.map_none, ite_self]
    exact .absent hold
  | some old =>
    split
    · exact .kept hold rfl rfl (h.changesOf_eq_nil_of_noop hstep hnoop hold)
    · next hunmanaged =>
      obtain ⟨node, hdeclared, hid, hexisting⟩ := h.existing step (List.mem_of_getElem? hstep)
        (by simp [hnoop]) (Bool.eq_false_iff.2 hunmanaged)
      have hlabel := h.run.sound.schedule.label hstep houtcome
      have hsettled := (h.run.attested.1 hstep houtcome hsucceeded).settled_of_noop hnoop
      exact .dropped hold (.inr (.adopted hdeclared hexisting hid hsettled hlabel.nodeId
        (hlabel.action.trans hnoop) hsucceeded))

theorem fate_of_delete (h : turn.Carries issued plan settings m)
    (hstep : plan.steps[k]? = some step) (hdelete : step.action = .delete)
    (houtcome : m.coordinator.report.steps[k]? = some outcome)
    (hsucceeded : outcome.status = .succeeded)
    (hnot : step.nodeId ∉ m.coordinator.report.carriedOut plan) :
    turn.Fate step.nodeId ((turn.applied plan m.coordinator.report later).get? step.nodeId) := by
  obtain ⟨old, hold, -⟩ := h.fits.deletes step (List.mem_of_getElem? hstep) hdelete
  have hlast : ∀ {j : Nat} {other : Step} {later : Outcome}, k < j →
      plan.steps[j]? = some other → m.coordinator.report.steps[j]? = some later →
      later.status = .succeeded → other.nodeId ≠ step.nodeId := by
    intro j other later hlt hother hlater hdone hid
    by_cases haction : other.action = .delete
    · exact hlt.ne (h.fits.deletesOnce hstep hother hdelete haction hid.symm)
    · exact hnot ⟨j, other, later, hother, hid, haction, hlater, hdone⟩
  rw [applied, State.get?_applyReport_last h.run.index_eq houtcome hsucceeded hstep hlast,
    State.get?_recordStep_delete hdelete]
  exact .dropped hold (h.drops_of_deletion hstep hdelete houtcome hsucceeded hold)

/-- Every record fares in one of four ways, in whatever order the steps go. -/
theorem fate (h : turn.Carries issued plan settings m) (id : String) :
    turn.Fate id ((turn.applied plan m.coordinator.report later).get? id) := by
  by_cases hcarried : id ∈ m.coordinator.report.carriedOut plan
  · obtain ⟨k, step, outcome, hstep, rfl, hdelete, houtcome, hsucceeded⟩ := hcarried
    cases haction : step.action with
    | create => exact h.fate_of_create hstep haction houtcome hsucceeded
    | update => exact h.fate_of_update hstep haction houtcome hsucceeded
    | noop => exact h.fate_of_noop hstep haction houtcome hsucceeded
    | delete => exact absurd haction hdelete
  by_cases hdeleted : ∃ (k : Nat) (step : Step) (outcome : Outcome), plan.steps[k]? = some step ∧
      step.nodeId = id ∧ m.coordinator.report.steps[k]? = some outcome ∧ outcome.status = .succeeded
  · obtain ⟨k, step, outcome, hstep, rfl, houtcome, hsucceeded⟩ := hdeleted
    have hdelete : step.action = .delete := by
      by_contra hdelete
      exact hcarried ⟨k, step, outcome, hstep, rfl, hdelete, houtcome, hsucceeded⟩
    exact h.fate_of_delete hstep hdelete houtcome hsucceeded hcarried
  -- No step of the node has succeeded.
  rw [applied, State.get?_applyReport_of_ne h.run.index_eq fun houtcome hsucceeded hstep hid =>
    hdeleted ⟨_, _, _, hstep, hid, houtcome, hsucceeded⟩, get?_getD_new]
  cases hold : (recordsOf turn.before).get? id with
  | none => exact .absent hold
  | some old =>
    refine .kept hold rfl rfl (h.changesOf_eq_nil hold fun {step} hstep hid _ hdone => ?_)
    obtain ⟨outcome, houtcome, hsucceeded⟩ := Schedule.statusAt?_eq_some_iff.1 hdone
    exact hdeleted ⟨_, step, outcome, hstep, hid, houtcome, hsucceeded⟩

/-- What is created is recorded for the node of the step that has asked for it. -/
theorem recorded_of_created (h : turn.Carries issued plan settings m) {kind : Kind}
    {attributes : Attributes} {created : CreatedResource}
    (hevent : .answered step (.create kind attributes) (.ok created) ∈ turn.events) :
    ∃ r, (turn.applied plan m.coordinator.report later).get? step.nodeId = some r ∧
      r.providerId = created.providerId := by
  obtain ⟨hplanned, -, _, hasks⟩ := h.run.asks_of_answered hevent
  have hcreate : step.action = .create := by
    cases hasks with
    | create action => exact action
  have hdone := h.run.succeeded_of_change h.quiet hevent rfl rfl
  obtain ⟨outcome, houtcome, hsucceeded⟩ := Schedule.statusAt?_eq_some_iff.1 hdone
  obtain ⟨r, created', hr, hid, -, hevent'⟩ :=
    h.created_of_step hplanned hcreate houtcome hsucceeded
  have hsame := h.run.answered_unique hevent hevent' rfl rfl rfl rfl
  have hissued := congrArg Event.issued? hsame
  exact ⟨r, hr, hid.trans (Option.some.inj hissued).symm⟩

end Carries

end Turn

end Converge
