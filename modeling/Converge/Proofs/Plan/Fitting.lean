import Converge.Proofs.Execution.Values
import Converge.Proofs.Plan.Synthesis
import Converge.Proofs.State.Fold

/-!
# How a plan fits what is recorded

Every step that changes a live resource is about the resource that is recorded for its node, or
about a new one. A node has one deletion at most and one other step at most; if it has both, it is
created after it has been deleted. So the record of a node is in the end what its step has made of
it.

Main statements: `Synthesis.Origin.fits` and `Removal.Sound.fits`.
-/

namespace Converge

/-- How the steps of a plan go together, and with what is recorded. -/
structure Plan.Fits (records : Table Record) (plan : Plan) : Prop where
  deletes : ∀ step ∈ plan.steps, step.action = .delete →
    ∃ r, records.get? step.nodeId = some r ∧ step.providerId = some r.providerId ∧
      step.removalPolicy = r.removalPolicy
  updates : ∀ step ∈ plan.steps, step.action = .update →
    ∃ r, records.get? step.nodeId = some r ∧ step.providerId = some r.providerId ∧
      step.kind = r.kind
  deletesOnce : ∀ {k l : Nat} {a b : Step}, plan.steps[k]? = some a → plan.steps[l]? = some b →
    a.action = .delete → b.action = .delete → a.nodeId = b.nodeId → k = l
  single : plan.Single
  replaces : ∀ {a b : Step}, a ∈ plan.steps → b ∈ plan.steps → a.action = .delete →
    b.action ≠ .delete → a.nodeId = b.nodeId → b.action = .create
  deletesFirst : ∀ {step : Step} {r : Record}, step ∈ plan.steps → step.action = .create →
    records.get? step.nodeId = some r → ∃ k ∈ step.dependsOn, ∃ deletion,
      plan.steps[k]? = some deletion ∧ deletion.action = .delete ∧ deletion.nodeId = step.nodeId

namespace Plan.Fits

variable {records : Table Record} {plan : Plan}

theorem recorded (h : plan.Fits records) {step : Step} (hstep : step ∈ plan.steps)
    (haction : step.action = .delete ∨ step.action = .update) :
    ∃ r, records.get? step.nodeId = some r ∧ step.providerId = some r.providerId := by
  rcases haction with hdelete | hupdate
  · obtain ⟨r, hr, hid, -⟩ := h.deletes step hstep hdelete
    exact ⟨r, hr, hid⟩
  · obtain ⟨r, hr, hid, -⟩ := h.updates step hstep hupdate
    exact ⟨r, hr, hid⟩

theorem changesOnce (h : plan.Fits records) {k l : Nat} {a b : Step}
    (ha : plan.steps[k]? = some a) (hb : plan.steps[l]? = some b)
    (hchanges : a.action = .delete ∨ a.action = .update)
    (hchanges' : b.action = .delete ∨ b.action = .update) (hid : a.nodeId = b.nodeId) : k = l := by
  have hmem := List.mem_of_getElem? ha
  have hmem' := List.mem_of_getElem? hb
  rcases hchanges with hdelete | hupdate <;> rcases hchanges' with hdelete' | hupdate'
  · exact h.deletesOnce ha hb hdelete hdelete' hid
  · have hcreate := h.replaces hmem hmem' hdelete (by simp [hupdate']) hid
    exact nomatch hupdate'.symm.trans hcreate
  · have hcreate := h.replaces hmem' hmem hdelete' (by simp [hupdate]) hid.symm
    exact nomatch hupdate.symm.trans hcreate
  · exact h.single ha hb (by simp [hupdate]) (by simp [hupdate']) hid

/-! ## What a run leaves of the record of a node -/

variable {settings : RunSettings} {trace : List Event} {m : Moment} {s : State}
  {operation : Operation} {finished : Instant} {k : Nat} {step : Step} {outcome : Outcome}

/-- The record of a node is in the end what its step has made of it, if that is no deletion. -/
theorem get?_of_step (h : plan.Fits records) (run : Execution settings plan trace m)
    (hstep : plan.steps[k]? = some step) (hdelete : step.action ≠ .delete)
    (houtcome : m.coordinator.report.steps[k]? = some outcome)
    (hsucceeded : outcome.status = .succeeded) :
    (s.applyReport plan m.coordinator.report operation finished).get? step.nodeId =
      (((m.coordinator.report.steps.take k).foldl (State.recordOutcome plan finished) s).recordStep
        step outcome finished).get? step.nodeId := by
  refine State.get?_applyReport_last run.index_eq houtcome hsucceeded hstep ?_
  intro j other _ hlt hother _ _ hid
  have hmem := List.mem_of_getElem? hstep
  have hmem' := List.mem_of_getElem? hother
  by_cases haction : other.action = .delete
  · -- A deletion of the same node stands before its creation.
    have hcreate := h.replaces hmem' hmem haction hdelete hid
    obtain ⟨r, hr, -⟩ := h.deletes other hmem' haction
    obtain ⟨l, hl, deletion, hdeletion, haction', hid'⟩ := h.deletesFirst hmem hcreate (hid ▸ hr)
    have hsame := h.deletesOnce hother hdeletion haction haction' (hid.trans hid'.symm)
    have hfirst := Plan.lt_of_mem_dependsOn run.isWellOrdered hstep hl
    omega
  · have hsame := h.single hother hstep haction hdelete hid
    omega

/-- Before a step that leaves its resource in place nothing happens to the record of its node. -/
theorem get?_take (h : plan.Fits records) (run : Execution settings plan trace m)
    (hstep : plan.steps[k]? = some step) (hdelete : step.action ≠ .delete)
    (hcreate : step.action ≠ .create) :
    ((m.coordinator.report.steps.take k).foldl (State.recordOutcome plan finished) s).get?
      step.nodeId = s.get? step.nodeId := by
  refine State.get?_foldl_of_ne fun earlier hearlier _ other hother hid => ?_
  obtain ⟨j, hj⟩ := List.mem_iff_getElem?.1 hearlier
  rw [List.getElem?_take] at hj
  split at hj
  · next hlt =>
    rw [run.index_eq hj] at hother
    by_cases haction : other.action = .delete
    · exact hcreate (h.replaces (List.mem_of_getElem? hother) (List.mem_of_getElem? hstep)
        haction hdelete hid)
    · have hsame := h.single hother hstep haction hdelete hid
      omega
  · cases hj

end Plan.Fits

namespace Removal

variable {records : Table Record} {doomed : Doomed}

/-- A plan of nothing but deletions fits what is recorded. -/
theorem Sound.fits {plan : Plan} (h : Sound records doomed plan.steps) : plan.Fits records where
  deletes step hstep _ := by
    obtain ⟨-, r, hr, hid, -, -, hpolicy⟩ := h.record step hstep
    exact ⟨r, hr, hid, hpolicy⟩
  updates step hstep hupdate := nomatch hupdate.symm.trans (h.action step hstep)
  deletesOnce ha hb _ _ hid := h.unique ha hb hid
  single ha _ hdelete := absurd (h.action _ (List.mem_of_getElem? ha)) hdelete
  replaces _ hb _ hdelete := absurd (h.action _ hb) hdelete
  deletesFirst hstep hcreate := nomatch hcreate.symm.trans (h.action _ hstep)

end Removal

namespace Synthesis

variable {g : Graph} {prior : Option State} {plan : Plan} {order : List Node}
  {forced : Table String} {plans : List NodePlan} {deletions : List Step}

theorem get?_indicesByNode {steps : List Step} (hnodup : (steps.map (·.nodeId)).Nodup) {step : Step}
    (hstep : step ∈ steps) : (indicesByNode steps).get? step.nodeId = some step.index := by
  refine Table.get?_ofList ?_ (List.mem_map.2 ⟨step, hstep, rfl⟩)
  rwa [List.map_map]

theorem stepFor_providerId_recorded {deleted placed : Table Nat} {index : Nat} {p : NodePlan}
    {r : Record} (hlifecycle : p.node.lifecycle = .managed)
    (hdecision : p.decision = .keep ∨ p.decision = .update) (hprior : p.prior = some r) :
    (stepFor g deleted placed index p).providerId = some r.providerId := by
  rcases hdecision with hdecision | hdecision <;>
    simp only [stepFor, hlifecycle, hdecision, hprior]

theorem Layout.single (h : Layout g prior plan order forced plans deletions) : plan.Single := by
  intro k l a b ha hb hdelete hdelete' hid
  rcases h.getElem?_cases ha with hdeletion | ⟨i, p, rfl, hp, rfl⟩
  · exact absurd (h.bare a (List.mem_of_getElem? hdeletion)).1 hdelete
  · rw [stepFor_nodeId] at hid
    exact (h.step_unique hb hdelete' hp hid.symm).symm

namespace Origin

/-- What is deleted is not declared, or is replaced. -/
theorem replace_of_deleted (h : Origin g prior plan order forced plans deletions) {a : Step}
    (ha : a ∈ deletions) {p : NodePlan} (hp : p ∈ plans) (hid : a.nodeId = p.node.id) :
    p.decision = .replace := by
  rcases Doomed.contains_ofPlans.1 (h.removal.record a ha).1 with
    ⟨hundeclared, -⟩ | ⟨q, hq, hreplace, hqid⟩
  · have hnode := h.perm.mem_iff.1 (h.node_mem hp)
    rw [hid, Graph.contains_iff.2 (Graph.mem_ids.2 ⟨p.node, hnode, rfl⟩)] at hundeclared
    cases hundeclared
  · exact h.plan_ext hq hp (hqid.trans hid) ▸ hreplace

theorem fits (h : Origin g prior plan order forced plans deletions) :
    plan.Fits (recordsOf prior) where
  deletes step hstep hdelete := by
    obtain ⟨-, r, hr, hid, -, -, hpolicy⟩ :=
      h.removal.record step (h.mem_deletions_iff.2 ⟨hstep, hdelete⟩)
    exact ⟨r, hr, hid, hpolicy⟩
  updates step hstep hupdate := by
    rcases h.mem_steps.1 hstep with hdeletion | ⟨i, p, hp, rfl⟩
    · exact nomatch hupdate.symm.trans (h.removal.action step hdeletion)
    rw [stepFor_action, action_eq_update_iff] at hupdate
    rw [stepFor_nodeId, stepFor_kind]
    obtain ⟨hmanaged, r, hr, hprior, hkind⟩ :=
      (h.decided p (List.mem_of_getElem? hp)).updated hupdate
    exact ⟨r, hr, stepFor_providerId_recorded hmanaged (.inr hupdate) hprior, hkind.symm⟩
  deletesOnce ha hb hdelete hdelete' hid := by
    rcases h.getElem?_cases ha with ha' | ⟨i, p, -, -, rfl⟩
    · rcases h.getElem?_cases hb with hb' | ⟨j, q, -, -, rfl⟩
      · exact h.removal.unique ha' hb' hid
      · exact absurd (stepFor_action.symm.trans hdelete') (action_ne_delete _)
    · exact absurd (stepFor_action.symm.trans hdelete) (action_ne_delete _)
  single := h.single
  replaces ha hb hdelete hdelete' hid := by
    rcases h.mem_steps.1 hb with hdeletion | ⟨i, p, hp, rfl⟩
    · exact absurd (h.removal.action _ hdeletion) hdelete'
    rw [stepFor_nodeId] at hid
    rw [stepFor_action, h.replace_of_deleted (h.mem_deletions_iff.2 ⟨ha, hdelete⟩)
      (List.mem_of_getElem? hp) hid]
    rfl
  deletesFirst hstep hcreate hr := by
    rcases h.mem_steps.1 hstep with hdeletion | ⟨i, p, hp, rfl⟩
    · exact nomatch hcreate.symm.trans (h.removal.action _ hdeletion)
    rw [stepFor_nodeId] at hr ⊢
    have hmem := List.mem_of_getElem? hp
    have hreplace : p.decision = .replace := by
      have hcases := action_eq_create_iff.1 (stepFor_action.symm.trans hcreate)
      refine hcases.resolve_left fun hnew => ?_
      exact nomatch ((h.decided p hmem).unrecorded hnew).2.symm.trans hr
    obtain ⟨deletion, hdeletion, hid⟩ :=
      h.removal.complete hr (Doomed.contains_ofPlans.2 (.inr ⟨p, hmem, hreplace, rfl⟩))
    obtain ⟨k, hk⟩ := List.mem_iff_getElem?.1 hdeletion
    have hplanned : plan.steps[k]? = some deletion := by
      rw [h.steps, List.getElem?_append_left (List.getElem?_eq_some_iff.1 hk).1, hk]
    have hindex := get?_indicesByNode h.removal.nodup hdeletion
    rw [hid, h.removal.index hk] at hindex
    exact ⟨k, mem_dependsOn_stepFor.2 (.inr ⟨hreplace, hindex⟩), deletion, hplanned,
      h.removal.action deletion hdeletion, hid⟩

end Origin

end Synthesis

end Converge
