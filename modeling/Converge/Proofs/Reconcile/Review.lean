import Converge.Proofs.Plan.Coverage
import Converge.Proofs.Reconcile.Protection
import Mathlib.Data.List.Forall2
import Mathlib.Data.List.Sort

/-!
# Reviewed plans

A plan that has been reviewed is carried out only if the plan that is made under the lock brings
about the same graph by the same actions on the same nodes. What the declaration says of a node is
then as it was reviewed. What its record says need not be, unless the record is still the same.

Main statement: `Turn.Ran.as_reviewed`.
-/

namespace Converge

open Reconcile Synthesis

/-! ## Two plans for one graph -/

/-- What two steps share that do the same to a node of one graph, each by records of its own. -/
structure Step.Matches (records records' : Table Record) (a b : Step) : Prop where
  index : a.index = b.index
  nodeId : a.nodeId = b.nodeId
  action : a.action = b.action
  declared : a.action ≠ .delete → a.kind = b.kind ∧ a.dependsOn = b.dependsOn ∧
    a.dependencies = b.dependencies ∧ a.removalPolicy = b.removalPolicy ∧ a.managed = b.managed
  parts : a.action ≠ .delete → a.managed = true → ∀ name,
    (a.resolved.contains name = true ∨ a.deferred.contains name = true ↔
      b.resolved.contains name = true ∨ b.deferred.contains name = true)
  recorded : records.get? a.nodeId = records'.get? a.nodeId →
    a.kind = b.kind ∧ a.providerId = b.providerId ∧ a.dependencies = b.dependencies ∧
      a.removalPolicy = b.removalPolicy
  outputs : a.action ≠ .delete → records.get? a.nodeId = records'.get? a.nodeId →
    a.outputs = b.outputs

namespace Synthesis

/-- The live resource that the step of a node is about, and its outputs: what is declared as
existing, or what is recorded and stays. -/
def resourceOf (node : Node) (record : Option Record) (action : Action) :
    Option String × Outputs :=
  match node.lifecycle, action, record with
  | .existing providerId outputs, _, _ => (some providerId, outputs)
  | .managed, .update, some r | .managed, .noop, some r => (some r.providerId, r.outputs)
  | _, _, _ => (none, .empty)

theorem stepFor_resource {g : Graph} {records : Table Record} {forced : Table String}
    {verdicts : Verdicts} {p : NodePlan} (h : p.Decided records forced verdicts)
    (deleted placed : Table Nat) (index : Nat) :
    ((stepFor g deleted placed index p).providerId, (stepFor g deleted placed index p).outputs) =
      resourceOf p.node (records.get? p.node.id) p.decision.action := by
  cases h with
  | existing providerId outputs lifecycle => simp only [stepFor, resourceOf, lifecycle]
  | create lifecycle record decision =>
    simp only [stepFor, resourceOf, lifecycle, record, decision, Decision.action]
  | replace r lifecycle record decision =>
    simp only [stepFor, resourceOf, lifecycle, record, decision, Decision.action]
  | update r lifecycle record prior decision =>
    simp only [stepFor, resourceOf, lifecycle, record, prior, decision, Decision.action]
  | keep r lifecycle record prior decision =>
    simp only [stepFor, resourceOf, lifecycle, record, prior, decision, Decision.action]

section twoPlans

variable {g : Graph} {prior prior' : Option State} {plan plan' : Plan} {order order' : List Node}
  {forced forced' : Table String} {plans plans' : List NodePlan} {deletions deletions' : List Step}
  {k : Nat} {a b : Step}

/-- Deletions of one node are about what is recorded for it. -/
theorem Origin.matches_deletion (h : Origin g prior plan order forced plans deletions)
    (h' : Origin g prior' plan' order' forced' plans' deletions') (ha : deletions[k]? = some a)
    (hb : deletions'[k]? = some b) (hid : a.nodeId = b.nodeId) :
    a.Matches (recordsOf prior) (recordsOf prior') b := by
  have hmem := List.mem_of_getElem? ha
  have hmem' := List.mem_of_getElem? hb
  have hdelete := h.removal.action a hmem
  obtain ⟨-, r, hr, hproviderId, hkind, hdependencies, hpolicy⟩ := h.removal.record a hmem
  obtain ⟨-, r', hr', hproviderId', hkind', hdependencies', hpolicy'⟩ := h'.removal.record b hmem'
  constructor
  case index => rw [h.removal.index ha, h'.removal.index hb]
  case nodeId => exact hid
  case action => rw [hdelete, h'.removal.action b hmem']
  case declared => exact fun hother => absurd hdelete hother
  case parts => exact fun hother => absurd hdelete hother
  case outputs => exact fun hother => absurd hdelete hother
  case recorded =>
    intro hsame
    rw [hr, hid, hr'] at hsame
    obtain rfl := Option.some.inj hsame
    exact ⟨hkind.trans hkind'.symm, hproviderId.trans hproviderId'.symm,
      hdependencies.trans hdependencies'.symm, hpolicy.trans hpolicy'.symm⟩

theorem exists_step_congr (hshape : plan.steps.map (fun step => (step.nodeId, step.action)) =
      plan'.steps.map fun step => (step.nodeId, step.action)) (k : Nat)
    (P : String → Action → Prop) :
    (∃ step, plan.steps[k]? = some step ∧ P step.nodeId step.action) ↔
      ∃ step, plan'.steps[k]? = some step ∧ P step.nodeId step.action := by
  have hk := congrArg (·[k]?) hshape
  simp only [List.getElem?_map] at hk
  cases hstep : plan.steps[k]? <;> cases hstep' : plan'.steps[k]? <;> simp_all

theorem Origin.resource_eq (h : Origin g prior plan order forced plans deletions) {i : Nat}
    {p : NodePlan} (hp : plans[i]? = some p) (ha : plan.steps[deletions.length + i]? = some a) :
    (a.providerId, a.outputs) =
      resourceOf p.node ((recordsOf prior).get? p.node.id) p.decision.action := by
  obtain rfl := Option.some.inj ((h.getElem?_step hp).symm.trans ha)
  exact stepFor_resource (h.decided p (List.mem_of_getElem? hp)) _ _ _

/-- A step waits for the same ones, as at every index both plans have a step of one node. -/
theorem Origin.dependsOn_eq (h : Origin g prior plan order forced plans deletions)
    (h' : Origin g prior' plan' order' forced' plans' deletions') (hg : g.Linked)
    (hshape : plan.steps.map (fun step => (step.nodeId, step.action)) =
      plan'.steps.map fun step => (step.nodeId, step.action)) {i j : Nat} {p q : NodePlan}
    (hp : plans[i]? = some p) (hq : plans'[j]? = some q)
    (ha : plan.steps[deletions.length + i]? = some a)
    (hb : plan'.steps[deletions'.length + j]? = some b) (hid : a.nodeId = b.nodeId) :
    a.dependsOn = b.dependsOn := by
  refine (h.increasing_dependsOn hg.coherent hp ha).eq_of_mem_iff
    (h'.increasing_dependsOn hg.coherent hq hb) fun k => ?_
  rw [h.mem_dependsOn hg hp ha, h'.mem_dependsOn hg hq hb, hid]
  exact exists_step_congr hshape k fun id action =>
    (action ≠ .delete ∧ id ∈ g.dependencies b.nodeId) ∨ (action = .delete ∧ id = b.nodeId)

/-- What is declared for a node says the same in the plans of one graph. -/
theorem Origin.matches_declared (h : Origin g prior plan order forced plans deletions)
    (h' : Origin g prior' plan' order' forced' plans' deletions') (hg : g.Linked)
    (hshape : plan.steps.map (fun step => (step.nodeId, step.action)) =
      plan'.steps.map fun step => (step.nodeId, step.action)) {i j : Nat} {p q : NodePlan}
    (hp : plans[i]? = some p) (hq : plans'[j]? = some q) (hid : p.node.id = q.node.id)
    (haction : p.decision.action = q.decision.action)
    (hplace : deletions.length + i = deletions'.length + j)
    (ha : plan.steps[deletions.length + i]? = some a)
    (hb : plan'.steps[deletions'.length + j]? = some b) :
    a.Matches (recordsOf prior) (recordsOf prior') b := by
  have hmem := List.mem_of_getElem? hp
  have hmem' := List.mem_of_getElem? hq
  have hnode : p.node = q.node := hg.node_ext (h.perm.mem_iff.1 (h.node_mem hmem))
    (h'.perm.mem_iff.1 (h'.node_mem hmem')) hid
  have hresource : (recordsOf prior).get? p.node.id = (recordsOf prior').get? p.node.id →
      (a.providerId, a.outputs) = (b.providerId, b.outputs) := by
    intro hsame
    rw [h.resource_eq hp ha, h'.resource_eq hq hb, haction, hsame, hnode]
  obtain rfl := Option.some.inj ((h.getElem?_step hp).symm.trans ha)
  obtain rfl := Option.some.inj ((h'.getElem?_step hq).symm.trans hb)
  constructor
  case index => rw [stepFor_index, stepFor_index, hplace]
  case nodeId => rw [stepFor_nodeId, stepFor_nodeId, hid]
  case action => rw [stepFor_action, stepFor_action, haction]
  case declared =>
    intro _
    refine ⟨?_, ?_, ?_, ?_, ?_⟩
    · rw [stepFor_kind, stepFor_kind, hnode]
    · exact h.dependsOn_eq h' hg hshape hp hq ha hb (by rw [stepFor_nodeId, stepFor_nodeId, hid])
    · rw [stepFor_dependencies, stepFor_dependencies, hnode]
    · rw [stepFor_removalPolicy, stepFor_removalPolicy, hnode]
    · rw [stepFor_managed, stepFor_managed, hnode]
  case parts =>
    intro _ hmanaged name
    rw [stepFor_managed, Bool.not_eq_true', NodePlan.isExisting_eq_false_iff] at hmanaged
    have hparts := ((h.decided p hmem).parted hmanaged).contains name
    have hparts' := ((h'.decided q hmem').parted (hnode ▸ hmanaged)).contains name
    rw [stepFor_resolved, stepFor_deferred, stepFor_resolved, stepFor_deferred, ← hparts.1,
      ← hparts'.1, hnode]
  case recorded =>
    intro hsame
    rw [stepFor_nodeId] at hsame
    refine ⟨?_, (Prod.mk.inj (hresource hsame)).1, ?_, ?_⟩
    · rw [stepFor_kind, stepFor_kind, hnode]
    · rw [stepFor_dependencies, stepFor_dependencies, hnode]
    · rw [stepFor_removalPolicy, stepFor_removalPolicy, hnode]
  case outputs =>
    intro _ hsame
    rw [stepFor_nodeId] at hsame
    exact (Prod.mk.inj (hresource hsame)).2

/-- Two plans for one graph that do the same to the same nodes match step by step. -/
theorem Origin.forall_matches (h : Origin g prior plan order forced plans deletions)
    (h' : Origin g prior' plan' order' forced' plans' deletions') (hg : g.Linked)
    (hshape : plan.steps.map (fun step => (step.nodeId, step.action)) =
      plan'.steps.map fun step => (step.nodeId, step.action)) :
    List.Forall₂ (Step.Matches (recordsOf prior) (recordsOf prior')) plan.steps plan'.steps := by
  have hlength : plan.steps.length = plan'.steps.length := by
    simpa using congrArg List.length hshape
  refine List.forall₂_iff_get.2 ⟨hlength, fun k hk hk' => ?_⟩
  have ha : plan.steps[k]? = some (plan.steps.get ⟨k, hk⟩) := List.getElem?_eq_getElem hk
  have hb : plan'.steps[k]? = some (plan'.steps.get ⟨k, hk'⟩) := List.getElem?_eq_getElem hk'
  obtain ⟨hid, haction⟩ : (plan.steps.get ⟨k, hk⟩).nodeId = (plan'.steps.get ⟨k, hk'⟩).nodeId ∧
      (plan.steps.get ⟨k, hk⟩).action = (plan'.steps.get ⟨k, hk'⟩).action := by
    have hpair := congrArg (·[k]?) hshape
    simpa [List.getElem?_map, ha, hb] using hpair
  generalize plan.steps.get ⟨k, hk⟩ = a at ha hid haction
  generalize plan'.steps.get ⟨k, hk'⟩ = b at hb hid haction
  rcases h.getElem?_cases ha with hdeletion | ⟨i, p, rfl, hp, rfl⟩ <;>
    rcases h'.getElem?_cases hb with hdeletion' | ⟨j, q, hplace, hq, rfl⟩
  · exact h.matches_deletion h' hdeletion hdeletion' hid
  · rw [h.removal.action a (List.mem_of_getElem? hdeletion), stepFor_action] at haction
    exact absurd haction.symm (action_ne_delete _)
  · rw [h'.removal.action b (List.mem_of_getElem? hdeletion'), stepFor_action] at haction
    exact absurd haction (action_ne_delete _)
  · rw [stepFor_nodeId, stepFor_nodeId] at hid
    rw [stepFor_action, stepFor_action] at haction
    exact h.matches_declared h' hg hshape hp hq hid haction hplace ha (hplace ▸ hb)

end twoPlans

end Synthesis

/-! ## What a review compares -/

namespace Reconcile

/-- A plan depends on the time at which it is made by that time alone. -/
theorem planFor_at {stack : Stack} {operation : Operation} {prior : Option State} {now : Instant}
    {plan : Plan} (h : planFor stack operation prior now = .ok plan) (later : Instant) :
    planFor stack operation prior later = .ok { plan with createdAt := later } := by
  cases operation with
  | apply =>
    obtain ⟨g, hg, hplan⟩ := bind_eq_ok_iff.1 h
    obtain ⟨steps, hsteps, hplan⟩ := bind_eq_ok_iff.1 hplan
    obtain rfl := pure_eq_ok_iff.1 hplan
    exact bind_eq_ok_iff.2 ⟨g, hg, bind_eq_ok_iff.2 ⟨steps, hsteps, rfl⟩⟩
  | destroy =>
    cases prior with
    | none =>
      obtain rfl := Except.ok.inj h
      rfl
    | some s =>
      obtain ⟨steps, hsteps, hplan⟩ := bind_eq_ok_iff.1 h
      obtain rfl := pure_eq_ok_iff.1 hplan
      exact bind_eq_ok_iff.2 ⟨steps, hsteps, rfl⟩

theorem sameSteps_iff {a b : Plan} : sameSteps a b = true ↔ a.configHash = b.configHash ∧
    a.steps.map (fun step => (step.nodeId, step.action)) =
      b.steps.map fun step => (step.nodeId, step.action) := by
  simp [sameSteps]

theorem checkReviewed_eq_ok_iff {reviewed plan : Plan} :
    checkReviewed (some reviewed) plan = .ok () ↔ sameSteps reviewed plan = true := by
  rw [checkReviewed]
  cases sameSteps reviewed plan <;> simp

theorem checkReviewed_eq_error {reviewed plan : Plan} {cause : Error}
    (h : checkReviewed (some reviewed) plan = .error cause) :
    cause = .apply (.aborted "state changed since the plan was reviewed, plan again") := by
  rw [checkReviewed] at h
  cases hsame : sameSteps reviewed plan with
  | true =>
    rw [hsame] at h
    cases h
  | false =>
    rw [hsame] at h
    exact (Except.error.inj h).symm

end Reconcile

/-! ## Reviewed calls -/

namespace Turn

variable {turn : Turn} {reviewed plan : Plan}

/-- What a review says of the plan that a call carries out. If the reviewed plan was made for the
same stack, the two differ only where the records do that they were made from. -/
structure Follows (turn : Turn) (reviewed plan : Plan) : Prop where
  configHash : reviewed.configHash = plan.configHash
  actions : reviewed.steps.map (fun step => (step.nodeId, step.action)) =
    plan.steps.map fun step => (step.nodeId, step.action)
  unchanged : ∀ time, planFor turn.stack .apply turn.before time = .ok reviewed →
    plan = { reviewed with createdAt := plan.createdAt }
  steps : ∀ earlier time, (∀ s, earlier = some s → s.KeysMatch) →
    (∀ s, turn.before = some s → s.KeysMatch) →
    planFor turn.stack .apply earlier time = .ok reviewed →
    List.Forall₂ (Step.Matches (recordsOf earlier) (recordsOf turn.before)) reviewed.steps plan.steps

theorem follows_of_sameSteps {now : Instant}
    (planned : planFor turn.stack .apply turn.before now = .ok plan)
    (same : sameSteps reviewed plan = true) : turn.Follows reviewed plan := by
  obtain ⟨hhash, hshape⟩ := sameSteps_iff.1 same
  refine ⟨hhash, hshape, fun time hreviewed => ?_, fun earlier time hkeys hkeys' hreviewed => ?_⟩
  · have hsame := Except.ok.inj ((planFor_at hreviewed now).symm.trans planned)
    rw [← hsame]
  · obtain ⟨g, hg, hplan⟩ := bind_eq_ok_iff.1 planned
    obtain ⟨g', hg', hplan'⟩ := bind_eq_ok_iff.1 hreviewed
    obtain rfl := Except.ok.inj (hg.symm.trans hg')
    have hlinked := Graph.Linked.ofDeclarations hg
    obtain ⟨_, _, _, _, horigin⟩ := Origin.exists_of_synthesize hlinked hkeys' hplan
    obtain ⟨_, _, _, _, horigin'⟩ := Origin.exists_of_synthesize hlinked hkeys hplan'
    exact horigin'.forall_matches horigin hlinked hshape

/-- What is carried out after a review follows the reviewed plan. -/
theorem Ran.follows (h : turn.Ran) (hoperation : turn.operation = .apply)
    (hreviewed : turn.reviewed = some reviewed) (hevents : turn.events ≠ []) :
    ∃ plan now settings m, planFor turn.stack .apply turn.before now = .ok plan ∧
      Execution settings plan turn.events m ∧ turn.Follows reviewed plan := by
  rcases h.exists_execution with hnone | ⟨plan, now, planned, settings, m, run⟩
  · exact absurd hnone hevents
  obtain ⟨_, h⟩ := h
  rcases performs_locked h with ⟨hnone, -⟩ | ⟨checked, later, planned', passed, -⟩
  · exact absurd hnone hevents
  -- The plan that is checked and the one that is carried out differ in the time at most.
  obtain rfl := Except.ok.inj ((planFor_at planned later).symm.trans planned')
  rw [hreviewed, checkReviewed_eq_ok_iff] at passed
  rw [hoperation] at planned
  exact ⟨plan, now, settings, m, planned, run, follows_of_sameSteps planned passed⟩

/-- If the plan that a call would make is not the reviewed one, nothing is carried out. -/
theorem Ran.refused (h : turn.Ran) (hoperation : turn.operation = .apply)
    (hreviewed : turn.reviewed = some reviewed) {now : Instant}
    (planned : planFor turn.stack .apply turn.before now = .ok plan)
    (hother : sameSteps reviewed plan = false) :
    turn.events = [] ∧ turn.after = turn.before ∧
      (turn.result = .error
          (.apply (.aborted "state changed since the plan was reviewed, plan again")) ∨
        ∃ cause, turn.result = .error (.state cause)) := by
  obtain ⟨_, h⟩ := h
  rw [hoperation, hreviewed] at h
  rcases performs_locked h with
    ⟨hevents, hafter, cause, halted, hresult⟩ | ⟨checked, later, planned', passed, -⟩
  · refine ⟨hevents, hafter, ?_⟩
    cases halted with
    | unread cause => exact .inr ⟨cause, hresult⟩
    | unplanned later failed => cases (planFor_at planned later).symm.trans failed
    | refused later _ failed => exact .inl (checkReviewed_eq_error failed ▸ hresult)
  · obtain rfl := Except.ok.inj ((planFor_at planned later).symm.trans planned')
    cases hother.symm.trans (checkReviewed_eq_ok_iff.1 passed)

/-- An apply with a reviewed plan carries out nothing but a plan that does the same to the same
nodes, and in which what is declared of a node, and what is recorded of it if that is as it was, is
as it was reviewed. If the state has changed so that something else would be done, or to something
else, it aborts and leaves the state as it is. -/
theorem Ran.as_reviewed (h : turn.Ran) (hoperation : turn.operation = .apply)
    (hreviewed : turn.reviewed = some reviewed) :
    (turn.events ≠ [] → ∃ plan now settings m,
      planFor turn.stack .apply turn.before now = .ok plan ∧
        Execution settings plan turn.events m ∧ turn.Follows reviewed plan) ∧
      ∀ plan now, planFor turn.stack .apply turn.before now = .ok plan →
        ¬ (reviewed.configHash = plan.configHash ∧
          reviewed.steps.map (fun step => (step.nodeId, step.action)) =
            plan.steps.map fun step => (step.nodeId, step.action)) →
        turn.events = [] ∧ turn.after = turn.before ∧
          (turn.result = .error
              (.apply (.aborted "state changed since the plan was reviewed, plan again")) ∨
            ∃ cause, turn.result = .error (.state cause)) := by
  refine ⟨h.follows hoperation hreviewed, fun plan now planned hother => ?_⟩
  exact h.refused hoperation hreviewed planned
    (Bool.eq_false_iff.2 fun hsame => hother (sameSteps_iff.1 hsame))

/-! ## A log sink that is to be forgotten -/

/-- A stack that declares nothing. -/
def bareStack : Stack := { Session.sinkStack .retain [] with resources := [] }

/-- The end of a log sink that is no longer declared: it is deleted, or just forgotten. -/
def sinkRemoval (policy : RemovalPolicy) : Step where
  index := 0
  nodeId := "logs"
  kind := .logSink
  action := .delete
  providerId := some "ls-1"
  reason := "no longer declared"
  removalPolicy := policy

theorem planFor_bareStack (s : State) (policy : RemovalPolicy) (now : Instant) :
    planFor bareStack .apply (some (Session.sinkState s policy)) now = .ok {
      createdAt := now
      configHash := Fingerprint.ofGraph .empty
      steps := [sinkRemoval policy] } := by
  have hsteps : Synthesis.steps .empty (some (Session.sinkState s policy)) =
      .ok [sinkRemoval policy] := by
    cases policy <;> rfl
  exact bind_eq_ok_iff.2 ⟨_, rfl, bind_eq_ok_iff.2 ⟨_, hsteps, rfl⟩⟩

/-- The log sink was recorded as to be retained when its end was reviewed, and no longer is when the
reviewed plan is applied. -/
theorem exists_reviewed_removal (s : State) : ∃ (turn : Turn) (reviewed : Plan), turn.Ran ∧
    turn.operation = .apply ∧ turn.reviewed = some reviewed ∧ turn.stack = bareStack ∧
      planFor bareStack .apply (some (Session.sinkState s .retain)) ⟨0, 0⟩ = .ok reviewed ∧
      reviewed.steps = [sinkRemoval .retain] ∧ turn.Succeeds ∧
      .called (sinkRemoval .destroy) (.delete .logSink "ls-1") ∈ turn.events := by
  let plan (policy : RemovalPolicy) : Plan := {
    createdAt := ⟨0, 0⟩
    configHash := Fingerprint.ofGraph .empty
    steps := [sinkRemoval policy] }
  have hplan : ∀ policy, planFor bareStack .apply (some (Session.sinkState s policy)) ⟨0, 0⟩ =
      .ok (plan policy) := fun policy => planFor_bareStack s policy ⟨0, 0⟩
  have hpassed : checkReviewed (some (plan .retain)) (plan .destroy) = .ok () :=
    checkReviewed_eq_ok_iff.2 (sameSteps_iff.2 ⟨rfl, rfl⟩)
  have h₀ : Execution (.ofApply {}) (plan .destroy) [] _ := .start rfl
  have h₁ := h₀.next (.start rfl)
  have h₂ := h₁.next (@Moment.Move.call _ _ [] _ _ _ _ rfl)
  have h₃ := h₂.next (@Moment.Move.finish _ _ [] _ _ _ _ (Reply.ok () : Reply Unit) _ _ rfl rfl rfl)
  have h₄ := h₃.next (@Moment.Move.collect _ _ [] _ _ _)
  exact ⟨_, plan .retain, ran_of_passed "session" Session.sinkLock ⟨0, 0⟩ ⟨0, 0⟩ (hplan .destroy)
    hpassed rfl h₄ rfl, rfl, rfl, rfl, hplan .retain, rfl, ⟨_, rfl, rfl⟩,
    List.mem_append_left _ (List.mem_append_left _ List.mem_concat_self)⟩

/-- What is carried out does the same to the same node as the reviewed plan. -/
theorem as_reviewed_removed :
    ∃ (turn : Turn) (reviewed plan : Plan) (now : Instant), turn.Ran ∧ turn.operation = .apply ∧
      turn.reviewed = some reviewed ∧ turn.events ≠ [] ∧
      planFor turn.stack .apply turn.before now = .ok plan ∧ turn.Follows reviewed plan := by
  obtain ⟨turn, reviewed, hran, hoperation, hreviewed, -, -, -, -, hcalled⟩ :=
    exists_reviewed_removal (.new "shop" "test" ⟨0, 0⟩)
  have hevents : turn.events ≠ [] := List.ne_nil_of_mem hcalled
  obtain ⟨plan, now, -, -, planned, -, hfollows⟩ := (hran.as_reviewed hoperation hreviewed).1 hevents
  exact ⟨turn, reviewed, plan, now, hran, hoperation, hreviewed, hevents, planned, hfollows⟩

/-- A plan that was reviewed as one that only forgets the log sink deletes it: what is compared leaves
out the removal policy, which may have been recorded anew since. -/
theorem deleted_after_review :
    ∃ (turn : Turn) (reviewed : Plan) (earlier : State) (time : Instant), turn.Ran ∧
      turn.operation = .apply ∧ turn.reviewed = some reviewed ∧
      planFor turn.stack .apply (some earlier) time = .ok reviewed ∧
      (∀ step ∈ reviewed.steps, step.callsProvider = false) ∧ turn.Succeeds ∧
      ∃ step kind id, .called step (.delete kind id) ∈ turn.events ∧ step ∉ reviewed.steps := by
  obtain ⟨turn, reviewed, hran, hoperation, hreviewed, hstack, hplan, hsteps, hsucceeds, hcalled⟩ :=
    exists_reviewed_removal (.new "shop" "test" ⟨0, 0⟩)
  have hquiet : ∀ step ∈ reviewed.steps, step.callsProvider = false := by
    intro step hstep
    rw [hsteps] at hstep
    obtain rfl := List.mem_singleton.1 hstep
    rfl
  refine ⟨turn, reviewed, _, _, hran, hoperation, hreviewed, hstack ▸ hplan, hquiet, hsucceeds,
    _, _, _, hcalled, fun hmem => ?_⟩
  cases hquiet _ hmem

end Turn

end Converge
