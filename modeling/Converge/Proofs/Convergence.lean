import Converge.Proofs.Plan.Convergence
import Converge.Proofs.Plan.Fitting

/-!
# Convergence

What a plan has carried out needs nothing more: the next plan leaves alone every node whose step
has succeeded, however the rest of the apply went. So an apply that succeeds in full leaves nothing
to do, and one that does not can be repeated safely.

Main statement: `Plan.converges`.
-/

namespace Converge

/-- Whether every update leaves alone the outputs that no changed attribute names. -/
def KeepsOutputs (trace : List Event) : Prop :=
  ∀ {step : Step} {kind : Kind} {id : String} {attributes : Attributes} {fresh : Outputs},
    .answered step (.update kind id attributes) (.ok fresh : Reply Outputs) ∈ trace →
      ∀ {name : String} {old new : Json}, step.outputs.get? name = some old →
        name ∉ step.changes.map (·.name) → fresh.get? name = some new → new.agrees old = true

/-- The nodes whose create, update or no-op step has succeeded. -/
def Report.carriedOut (report : Report) (plan : Plan) : Set String :=
  {id | ∃ (k : Nat) (step : Step) (outcome : Outcome), plan.steps[k]? = some step ∧
    step.nodeId = id ∧ step.action ≠ .delete ∧ report.steps[k]? = some outcome ∧
      outcome.status = .succeeded}

namespace Synthesis

variable {g : Graph} {prior : Option State} {plan : Plan} {order : List Node}
  {forced : Table String} {plans : List NodePlan} {deletions : List Step}
  {settings : RunSettings} {trace : List Event} {m : Moment}

/-! ## What has been carried out -/

/-- A planned node, its step and the success of that. -/
structure Carried (g : Graph) (plan : Plan) (m : Moment) (k : Nat) (p : NodePlan) (step : Step)
    (outcome : Outcome) : Prop where
  planned : plan.steps[k]? = some step
  made : ∃ deleted placed, stepFor g deleted placed k p = step
  reported : m.coordinator.schedule.outcomes[k]? = some outcome
  succeeded : outcome.status = .succeeded

namespace Carried

variable {k : Nat} {p : NodePlan} {step : Step} {outcome : Outcome}

theorem nodeId (h : Carried g plan m k p step outcome) : step.nodeId = p.node.id := by
  obtain ⟨deleted, placed, rfl⟩ := h.made
  exact stepFor_nodeId

theorem action (h : Carried g plan m k p step outcome) : step.action = p.decision.action := by
  obtain ⟨deleted, placed, rfl⟩ := h.made
  exact stepFor_action

theorem mem (h : Carried g plan m k p step outcome) :
    p.node.id ∈ m.coordinator.report.carriedOut plan :=
  ⟨k, step, outcome, h.planned, h.nodeId, h.action ▸ Origin.action_ne_delete _, h.reported,
    h.succeeded⟩

theorem attested (h : Carried g plan m k p step outcome) (run : Execution settings plan trace m) :
    outcome.Attested trace step :=
  run.attested.1 h.planned h.reported h.succeeded

/-- The outputs of the step are those recorded for its node. -/
theorem outputs (h : Carried g plan m k p step outcome) (hinformed : m.Informed plan) :
    m.outputs.outputs.get? p.node.id = some outcome.outputs := by
  rw [← h.nodeId]
  exact hinformed.recorded h.planned h.reported h.succeeded (h.action ▸ Origin.action_ne_delete _)

theorem get?_outputs (h : Carried g plan m k p step outcome) (hinformed : m.Informed plan)
    {r : Reference} (hid : r.nodeId = p.node.id) :
    m.outputs.get? r = outcome.outputs.get? r.output := by
  rw [OutputTable.get?, hid, h.outputs hinformed]
  rfl

/-- The attributes that the step was given are what they would be given all outputs. -/
theorem prepared (h : Carried g plan m k p step outcome) (hinformed : m.Informed plan) :
    Schedule.prepareAttributes m.outputs p.deferred.entries p.resolved = .ok outcome.applied := by
  have hprepared := hinformed.applied h.planned h.reported h.succeeded
  obtain ⟨deleted, placed, rfl⟩ := h.made
  rwa [Schedule.prepare, stepFor_deferred, stepFor_resolved] at hprepared

theorem dependencies (h : Carried g plan m k p step outcome) :
    step.dependencies = g.dependencies p.node.id := by
  obtain ⟨deleted, placed, rfl⟩ := h.made
  exact stepFor_dependencies

theorem kind (h : Carried g plan m k p step outcome) : step.kind = p.node.kind := by
  obtain ⟨deleted, placed, rfl⟩ := h.made
  exact stepFor_kind

theorem managed (h : Carried g plan m k p step outcome) (hmanaged : p.node.lifecycle = .managed) :
    step.managed = true := by
  obtain ⟨deleted, placed, rfl⟩ := h.made
  rw [stepFor_managed, NodePlan.isExisting_eq_false_iff.2 hmanaged]
  rfl

end Carried

/-- What a step that has succeeded leaves in the record of its node: what it has brought, and the
attributes as they were known or given to it. -/
structure Leaves (lookup : Reference → Lookup) (t : OutputTable) (node : Node) (step : Step)
    (outcome : Outcome) (r : Record) : Prop where
  kind : r.kind = node.kind
  outputs : r.outputs = outcome.outputs
  dependencies : r.dependencies = step.dependencies
  removalPolicy : r.removalPolicy = step.removalPolicy
  attributes : Written lookup t node.attributes r.attributes

namespace Origin

variable {i : Nat} {p : NodePlan}

theorem exists_carried (h : Origin g prior plan order forced plans deletions)
    (hp : plans[i]? = some p) (hmem : p.node.id ∈ m.coordinator.report.carriedOut plan) :
    ∃ step outcome, Carried g plan m (deletions.length + i) p step outcome := by
  obtain ⟨k, step, outcome, hstep, hid, hdelete, houtcome, hsucceeded⟩ := hmem
  obtain rfl := h.step_unique hstep hdelete hp hid
  obtain rfl := Option.some.inj (hstep.symm.trans (h.getElem?_step hp))
  exact ⟨_, outcome, hstep, ⟨_, _, rfl⟩, houtcome, hsucceeded⟩

theorem carriedOut_of_forall (h : Origin g prior plan order forced plans deletions)
    (run : Execution settings plan trace m)
    (hall : ∀ outcome ∈ m.coordinator.report.steps, outcome.status = .succeeded)
    (hp : plans[i]? = some p) : p.node.id ∈ m.coordinator.report.carriedOut plan := by
  have hstep := h.getElem?_step hp
  obtain ⟨outcome, houtcome, hsucceeded⟩ := run.reported_of_forall hall hstep
  have hcarried : Carried g plan m (deletions.length + i) p _ outcome :=
    ⟨hstep, ⟨_, _, rfl⟩, houtcome, hsucceeded⟩
  exact hcarried.mem

theorem carriedOut_of_success (h : Origin g prior plan order forced plans deletions)
    (run : Execution settings plan trace m) (hsuccess : m.coordinator.report.isSuccess = true)
    (hp : plans[i]? = some p) : p.node.id ∈ m.coordinator.report.carriedOut plan :=
  h.carriedOut_of_forall run (Report.isSuccess_iff.1 hsuccess).2 hp

/-- What has been carried out depends on what has been carried out. -/
theorem carried_dependency (h : Origin g prior plan order forced plans deletions)
    (hg : g.Linked) (run : Execution settings plan trace m) (hp : plans[i]? = some p)
    (hmem : p.node.id ∈ m.coordinator.report.carriedOut plan) {id : String}
    (hid : id ∈ p.node.dependencyIds) : ∃ k q step outcome, q ∈ plans ∧ q.node.id = id ∧
      Carried g plan m k q step outcome := by
  obtain ⟨step, outcome, hcarried⟩ := h.exists_carried hp hmem
  obtain ⟨j, q, hq, rfl, hwaits⟩ := h.exists_dependency hg hp hid hcarried.planned
  have hsucceeded := run.sound.schedule.begun hcarried.planned
    (.inr (Schedule.statusAt?_eq_some_iff.2 ⟨outcome, hcarried.reported, hcarried.succeeded⟩)) _
      hwaits
  obtain ⟨earlier, hearlier, hdone⟩ := Schedule.statusAt?_eq_some_iff.1 hsucceeded
  exact ⟨_, q, _, earlier, List.mem_of_getElem? hq, rfl, h.getElem?_step hq, ⟨_, _, rfl⟩, hearlier,
    hdone⟩

end Origin

/-! ## Values -/

/-- Whether the update of a node in place has brought an output anew that no changed attribute
names. -/
structure Renewed (records : Table Record) (trace : List Event) (step : Step) (outcome : Outcome)
    (output : String) (old new : Json) : Prop where
  action : step.action = .update
  unnamed : output ∉ step.changes.map (·.name)
  held : step.outputs.get? output = some old
  recorded : ∃ r, records.get? step.nodeId = some r ∧ r.outputs = step.outputs
  answered : ∃ kind id attributes fresh,
    .answered step (.update kind id attributes) (.ok fresh : Reply Outputs) ∈ trace ∧
      fresh.get? output = some new
  brought : outcome.outputs.get? output = some new

theorem Renewed.unchanged {records : Table Record} {step : Step} {outcome : Outcome}
    {output : String} {old new : Json} (h : Renewed records trace step outcome output old new)
    (hkeeps : KeepsOutputs trace) : new.agrees old = true := by
  obtain ⟨kind, id, attributes, fresh, hevent, hnew⟩ := h.answered
  exact hkeeps hevent h.held h.unnamed hnew

/-- What was known of a node that has been carried out is what it has brought, unless an update has
brought it anew. -/
theorem Carried.get?_of_known {records : Table Record} {verdicts : Verdicts} {k : Nat}
    {p : NodePlan} {step : Step} {outcome : Outcome} (h : Carried g plan m k p step outcome)
    (hdecided : p.Decided records forced verdicts) (run : Execution settings plan trace m)
    {output : String} {x : Json} (hknown : p.verdict.lookup output = .known x) :
    outcome.outputs.get? output = some x ∨
      ∃ new, Renewed records trace step outcome output x new := by
  have hattested := h.attested run
  have haction := h.action
  obtain ⟨deleted, placed, rfl⟩ := h.made
  cases hdecided with
  | existing providerId outputs lifecycle decision =>
    rw [decision] at haction
    rw [NodePlan.verdict_existing lifecycle decision] at hknown
    rw [(hattested.of_noop haction).1, stepFor_outputs_existing lifecycle]
    exact .inl (Verdict.Stays.get?_of_lookup ⟨.inr rfl, rfl⟩ hknown)
  | create lifecycle record decision parted =>
    rw [Verdict.lookup_of_replaced (.inl ((NodePlan.verdict_decision p).trans decision))] at hknown
    cases hknown
  | replace r lifecycle record decision parted cause =>
    rw [Verdict.lookup_of_replaced (.inr ((NodePlan.verdict_decision p).trans decision))] at hknown
    cases hknown
  | update r lifecycle record hprior decision parted kind patch changes stays unforced =>
    rw [decision] at haction
    rw [NodePlan.verdict_update decision hprior] at hknown
    obtain ⟨id, fresh, -, hevent, houtputs, -⟩ := hattested.of_update haction
    have hheld : (stepFor g deleted placed k p).outputs = r.outputs :=
      stepFor_outputs_recorded lifecycle (.inr decision) hprior
    have hchanges : (stepFor g deleted placed k p).changes = p.changes := stepFor_changes
    obtain ⟨hold, hunnamed⟩ := Verdict.get?_of_lookup_update hknown
    have hmerged := Table.get?_merge (stepFor g deleted placed k p).outputs fresh output
    rw [← houtputs, hheld, hold] at hmerged
    cases hnew : fresh.get? output with
    | none =>
      rw [hnew] at hmerged
      exact .inl hmerged
    | some new =>
      rw [hnew] at hmerged
      exact .inr ⟨new, haction, hchanges ▸ hunnamed, hheld ▸ hold,
        ⟨r, by rwa [stepFor_nodeId], hheld.symm⟩, ⟨_, id, _, fresh, hevent, hnew⟩, hmerged⟩
  | keep r lifecycle record hprior decision parted kind unchanged unforced =>
    rw [decision] at haction
    rw [NodePlan.verdict_keep decision hprior] at hknown
    rw [(hattested.of_noop haction).1, stepFor_outputs_recorded lifecycle (.inl decision) hprior]
    exact .inl (Verdict.Stays.get?_of_lookup ⟨.inl rfl, rfl⟩ hknown)

namespace Origin

/-- What was known of the references of a node that has been carried out is what the nodes have
brought that they refer to, unless an update has brought it anew. -/
theorem known_of_carried (h : Origin g prior plan order forced plans deletions) (hg : g.Linked)
    (run : Execution settings plan trace m) {i : Nat} {p : NodePlan} (hp : plans[i]? = some p)
    (hmem : p.node.id ∈ m.coordinator.report.carriedOut plan) {name : String}
    {value : AttributeValue} (hvalue : p.node.attributes.get? name = some value) {r : Reference}
    (hr : r ∈ value.references) {x : Json}
    (hknown : Verdict.lookupIn (Verdicts.ofPlans plans) r = .known x) :
    m.outputs.get? r = some x ∨ ∃ step outcome new, step ∈ plan.steps ∧ step.nodeId = r.nodeId ∧
      Renewed (recordsOf prior) trace step outcome r.output x new ∧
        m.outputs.get? r = some new := by
  obtain ⟨k, q, step, outcome, hq, hid, hcarried⟩ :=
    h.carried_dependency hg run hp hmem (Verdict.mem_dependencyIds hvalue hr)
  rw [Verdict.lookupIn, ← hid, h.verdict q hq] at hknown
  rw [hcarried.get?_outputs (run.informed h.single) hid.symm]
  refine (hcarried.get?_of_known (h.decided q hq) run hknown).imp_right ?_
  rintro ⟨new, hrenewed⟩
  exact ⟨step, outcome, new, List.mem_of_getElem? hcarried.planned, hcarried.nodeId.trans hid,
    hrenewed, hrenewed.brought⟩

/-! ## Records -/

variable {s : State} {operation : Operation} {finished : Instant} {i : Nat} {p : NodePlan}
  {step : Step} {outcome : Outcome}

/-- The record of a node is in the end what its step has made of it. -/
theorem get?_of_carried (s : State) (operation : Operation) (finished : Instant)
    (h : Origin g prior plan order forced plans deletions) (run : Execution settings plan trace m)
    (hcarried : Carried g plan m (deletions.length + i) p step outcome) :
    (s.applyReport plan m.coordinator.report operation finished).get? p.node.id =
      (((m.coordinator.report.steps.take (deletions.length + i)).foldl
        (State.recordOutcome plan finished) s).recordStep step outcome finished).get?
          step.nodeId := by
  rw [← hcarried.nodeId]
  exact h.fits.get?_of_step run hcarried.planned (hcarried.action ▸ action_ne_delete _)
    hcarried.reported hcarried.succeeded

/-- Before its step nothing happens to the record of a node that is kept or updated. -/
theorem get?_take (s : State) (finished : Instant)
    (h : Origin g prior plan order forced plans deletions) (run : Execution settings plan trace m)
    (hcarried : Carried g plan m (deletions.length + i) p step outcome)
    (hdecision : p.decision = .keep ∨ p.decision = .update) :
    ((m.coordinator.report.steps.take (deletions.length + i)).foldl
      (State.recordOutcome plan finished) s).get? p.node.id = s.get? p.node.id := by
  have hcreate : step.action ≠ .create := by
    rw [hcarried.action]
    rcases hdecision with hdecision | hdecision <;> rw [hdecision] <;> nofun
  rw [← hcarried.nodeId]
  exact h.fits.get?_take run hcarried.planned (hcarried.action ▸ action_ne_delete _) hcreate

/-- A node that exists elsewhere brings the outputs it is declared with. -/
theorem outputs_of_existing (h : Origin g prior plan order forced plans deletions)
    (run : Execution settings plan trace m) {k : Nat} (hp : p ∈ plans)
    (hcarried : Carried g plan m k p step outcome) {providerId : String} {outputs : Outputs}
    (hexisting : p.node.lifecycle = .existing providerId outputs) : outcome.outputs = outputs := by
  have haction := hcarried.action
  have hattested := hcarried.attested run
  obtain ⟨deleted, placed, rfl⟩ := hcarried.made
  cases h.decided p hp with
  | existing providerId' outputs' lifecycle decision =>
    rw [decision] at haction
    rw [(hattested.of_noop haction).1, stepFor_outputs_existing hexisting]
  | create lifecycle => exact nomatch hexisting.symm.trans lifecycle
  | replace r lifecycle => exact nomatch hexisting.symm.trans lifecycle
  | update r lifecycle => exact nomatch hexisting.symm.trans lifecycle
  | keep r lifecycle => exact nomatch hexisting.symm.trans lifecycle

/-- What is recorded of a managed node that has been carried out is what its step leaves. -/
theorem exists_record (h : Origin g prior plan order forced plans deletions)
    (run : Execution settings plan trace m) (hs : ∀ id, s.get? id = (recordsOf prior).get? id)
    (hp : plans[i]? = some p) (hcarried : Carried g plan m (deletions.length + i) p step outcome)
    (hmanaged : p.node.lifecycle = .managed) :
    ∃ r, (s.applyReport plan m.coordinator.report operation finished).get? p.node.id = some r ∧
      Leaves (Verdict.lookupIn (Verdicts.ofPlans plans)) m.outputs p.node step outcome r := by
  have hrecord := h.get?_of_carried s operation finished run hcarried
  have hbefore := h.get?_take s finished run hcarried
  have haction := hcarried.action
  have hparted := (h.decided p (List.mem_of_getElem? hp)).parted hmanaged
  have hgiven : Written (Verdict.lookupIn (Verdicts.ofPlans plans)) m.outputs p.node.attributes
      outcome.applied := .of_prepared hparted (hcarried.prepared (run.informed h.single))
  have hcreated : step.action = .create →
      ∃ r, (s.applyReport plan m.coordinator.report operation finished).get? p.node.id = some r ∧
        Leaves (Verdict.lookupIn (Verdicts.ofPlans plans)) m.outputs p.node step outcome r := by
    intro hcreate
    obtain ⟨sequence, hnew⟩ := State.get?_recordStep_create hcreate
    exact ⟨_, hrecord.trans hnew, hcarried.kind, rfl, rfl, rfl, hgiven⟩
  cases h.decided p (List.mem_of_getElem? hp) with
  | existing providerId outputs lifecycle => exact nomatch hmanaged.symm.trans lifecycle
  | create _ _ decision => exact hcreated (by rw [haction, decision]; rfl)
  | replace _ _ _ decision => exact hcreated (by rw [haction, decision]; rfl)
  | update r _ record hprior decision _ kind =>
    rw [decision] at haction
    rw [State.get?_recordStep_update haction, hcarried.nodeId, hbefore (by simp [decision]), hs,
      record] at hrecord
    exact ⟨_, hrecord, kind, rfl, rfl, rfl, hgiven⟩
  | keep r _ record hprior decision _ kind unchanged =>
    rw [decision] at haction
    rw [State.get?_recordStep_noop haction, if_pos (hcarried.managed hmanaged), hcarried.nodeId,
      hbefore (by simp [decision]), hs, record] at hrecord
    have hheld : outcome.outputs = r.outputs := by
      have hattested := hcarried.attested run
      obtain ⟨deleted, placed, rfl⟩ := hcarried.made
      rw [(hattested.of_noop haction).1, stepFor_outputs_recorded hmanaged (.inl decision) hprior]
    exact ⟨_, hrecord, kind, hheld.symm, rfl, rfl, .of_unchanged hparted unchanged⟩

/-- A node that has been carried out is up to date. -/
theorem upToDate (h : Origin g prior plan order forced plans deletions) (hg : g.Linked)
    (run : Execution settings plan trace m) (hkeeps : KeepsOutputs trace)
    (hs : ∀ id, s.get? id = (recordsOf prior).get? id) (hp : plans[i]? = some p)
    (hmem : p.node.id ∈ m.coordinator.report.carriedOut plan) :
    UpToDate (s.applyReport plan m.coordinator.report operation finished).resources m.outputs
      (m.coordinator.report.carriedOut plan) p.node := by
  obtain ⟨step, outcome, hcarried⟩ := h.exists_carried hp hmem
  have houtputs := hcarried.outputs (run.informed h.single)
  have hdependencies : ∀ id ∈ p.node.dependencyIds,
      id ∈ m.coordinator.report.carriedOut plan := by
    intro id hid
    obtain ⟨k, q, other, earlier, -, rfl, hdone⟩ := h.carried_dependency hg run hp hmem hid
    exact hdone.mem
  refine ⟨hdependencies, fun hexisting => ?_, fun hmanaged => ?_⟩
  · rw [houtputs, h.outputs_of_existing run (List.mem_of_getElem? hp) hcarried hexisting]
  · obtain ⟨r, hr, hleft⟩ := h.exists_record run hs hp hcarried hmanaged
    refine ⟨r, hr, hleft.kind, hleft.outputs ▸ houtputs, fun id hid => ?_,
      hleft.attributes.matches ?_⟩
    · rw [hleft.dependencies, hcarried.dependencies] at hid
      exact hdependencies id
        ((hg.dependencies p.node (h.perm.mem_iff.1 (h.node_mem (List.mem_of_getElem? hp)))).1 hid)
    · intro name value hvalue target htarget x hknown
      rcases h.known_of_carried hg run hp hmem hvalue htarget hknown with
        hstays | ⟨_, _, new, -, -, hrenewed, hnew⟩
      · exact ⟨x, hstays, Json.agrees_refl x⟩
      · exact ⟨new, hnew, hrenewed.unchanged hkeeps⟩

/-- After a run in which every step has succeeded nothing else is recorded than what is declared. -/
theorem declared_of_success (h : Origin g prior plan order forced plans deletions)
    (run : Execution settings plan trace m) (hsuccess : m.coordinator.report.isSuccess = true)
    (hs : ∀ id, s.get? id = (recordsOf prior).get? id) {id : String} {r : Record}
    (hr : (s.applyReport plan m.coordinator.report operation finished).get? id = some r) :
    ∃ node ∈ g.nodes, node.id = id := by
  by_contra hnone
  have hundeclared : g.contains id = false :=
    Bool.eq_false_iff.2 fun hmem => hnone (Graph.mem_ids.1 (Graph.contains_iff.1 hmem))
  have hplans : ∀ {k : Nat} {step : Step}, plan.steps[k]? = some step → step.nodeId = id →
      deletions[k]? = some step := by
    intro k step hstep hid
    rcases h.getElem?_cases hstep with hdeletion | ⟨i, p, -, hp, rfl⟩
    · exact hdeletion
    · rw [stepFor_nodeId] at hid
      exact absurd ⟨p.node, h.perm.mem_iff.1 (h.node_mem (List.mem_of_getElem? hp)), hid⟩ hnone
  -- Nothing but a deletion can concern the record, and no step after that does.
  by_cases hdeletion : ∃ step ∈ deletions, step.nodeId = id
  · obtain ⟨step, hstep, rfl⟩ := hdeletion
    obtain ⟨k, hk⟩ := List.mem_iff_getElem?.1 hstep
    have hplanned : plan.steps[k]? = some step := by
      rw [h.steps, List.getElem?_append_left (List.getElem?_eq_some_iff.1 hk).1, hk]
    obtain ⟨outcome, houtcome, hsucceeded⟩ := run.reported_of_success hsuccess hplanned
    rw [State.get?_applyReport_last run.index_eq houtcome hsucceeded hplanned ?_,
      State.get?_recordStep_delete (h.removal.action step hstep)] at hr
    · cases hr
    · intro j other later hlt hother _ _ hid
      exact hlt.ne (h.removal.unique hk (hplans hother hid) hid.symm)
  · rw [State.get?_applyReport_of_ne run.index_eq fun hk _ hstep hid =>
      hdeletion ⟨_, List.mem_of_getElem? (hplans hstep hid), hid⟩, hs] at hr
    exact hdeletion (h.removal.complete hr (Doomed.contains_ofPlans.2 (.inl ⟨hundeclared, r, hr⟩)))

end Origin

end Synthesis

namespace Plan

/-- After a run of a plan the next plan does nothing to what has been carried out, and nothing at
all if the run has succeeded. -/
theorem converges {declarations : List Declaration} {g : Graph} {prior : Option State}
    {now : Instant} {plan : Plan} {settings : RunSettings} {trace : List Event} {m : Moment}
    (hg : Graph.ofDeclarations declarations = .ok g)
    (hprior : ∀ s, prior = some s → s.KeysMatch)
    (hplan : Plan.synthesize g prior now = .ok plan) (run : Execution settings plan trace m)
    (hkeeps : KeepsOutputs trace) (project environment : String) (operation : Operation)
    (started finished later : Instant) {after : State}
    (hafter : after = (prior.getD (.new project environment started)).applyReport plan
      m.coordinator.report operation finished) :
    (m.coordinator.report.isSuccess = true →
      ∃ next, Plan.synthesize g (some after) later = .ok next ∧
        ∀ step ∈ next.steps, step.action = .noop) ∧
    ∀ next, Plan.synthesize g (some after) later = .ok next →
      ∀ id ∈ m.coordinator.report.carriedOut plan, (∃ step ∈ next.steps, step.nodeId = id) ∧
        ∀ step ∈ next.steps, step.nodeId = id → step.action = .noop := by
  have hlinked := Graph.Linked.ofDeclarations hg
  obtain ⟨order, forced, plans, deletions, horigin⟩ :=
    Synthesis.Origin.exists_of_synthesize hlinked hprior hplan
  have hrecords : ∀ id, (prior.getD (.new project environment started)).get? id =
      (Synthesis.recordsOf prior).get? id := fun _ => Synthesis.get?_getD_new
  have hkeys : after.KeysMatch := by
    rw [hafter]
    refine State.KeysMatch.applyReport ?_ _ _
    intro id r hr
    rw [hrecords] at hr
    cases prior with
    | none => exact absurd hr (by simp [Synthesis.recordsOf])
    | some s => exact hprior s rfl hr
  have hplanned : ∀ node ∈ g.nodes, ∃ (i : Nat) (p : NodePlan), plans[i]? = some p ∧
      p.node = node := by
    intro node hnode
    obtain ⟨p, hp, rfl⟩ := horigin.exists_plan (horigin.perm.mem_iff.2 hnode)
    obtain ⟨i, hi⟩ := List.mem_iff_getElem?.1 hp
    exact ⟨i, p, hi, rfl⟩
  have hcurrent : ∀ node ∈ g.nodes, node.id ∈ m.coordinator.report.carriedOut plan →
      UpToDate after.resources m.outputs (m.coordinator.report.carriedOut plan) node := by
    intro node hnode hmem
    obtain ⟨i, p, hp, rfl⟩ := hplanned node hnode
    rw [hafter]
    exact horigin.upToDate hlinked run hkeeps hrecords hp hmem
  constructor
  · intro hsuccess
    refine UpToDate.synthesize hlinked hkeys ?_ fun node hnode => hcurrent node hnode ?_
    · intro id r hr
      rw [hafter] at hr
      exact horigin.declared_of_success run hsuccess hrecords hr
    · obtain ⟨i, p, hp, rfl⟩ := hplanned node hnode
      exact horigin.carriedOut_of_success run hsuccess hp
  · intro next hnext id hid
    refine UpToDate.action_eq_noop hlinked (fun s hs => Option.some.inj hs ▸ hkeys) ?_ hcurrent
      hnext hid
    rintro id ⟨k, step, outcome, hstep, rfl, hdelete, -⟩
    rcases horigin.getElem?_cases hstep with hdeletion | ⟨i, p, rfl, hp, rfl⟩
    · exact absurd (horigin.removal.action _ (List.mem_of_getElem? hdeletion)) hdelete
    · exact ⟨p.node, horigin.perm.mem_iff.1 (horigin.node_mem (List.mem_of_getElem? hp)),
        Synthesis.stepFor_nodeId.symm⟩

/-- A target group that is to be checked elsewhere than before, and a listener that refers to it. -/
def checkedDeclarations : List Declaration := [
  { id := "group", kind := .targetGroup, attributes := .ofList [("check", .text "/new")] },
  { id := "listener", kind := .listener, attributes := .ofList [("group", .output "group" "arn")] }]

/-- The target group as it was recorded. -/
def checkedState : State :=
  { State.new "shop" "test" ⟨0, 0⟩ with
    resources := .ofList [
      ("group", { Record.new "group" .targetGroup "tg-1" ⟨0, 0⟩ with
        attributes := .ofList [("check", .string "/old")]
        outputs := .ofList [("arn", .string "arn-1")] })] }

/-- The outputs of the target group once it has been updated. -/
def checkedOutputs : Outputs := .ofList [("arn", .string "arn-1"), ("check", .string "/new")]

def groupUpdate : Step where
  index := 0
  nodeId := "group"
  kind := .targetGroup
  action := .update
  resolved := .ofList [("check", .string "/new")]
  providerId := some "tg-1"
  outputs := .ofList [("arn", .string "arn-1")]
  changes := [{ name := "check", old := some (.string "/old"), new := some (.string "/new") }]
  reason := "1 attribute(s) changed"

def listenerCreation : Step where
  index := 1
  nodeId := "listener"
  kind := .listener
  action := .create
  resolved := .ofList [("group", .string "arn-1")]
  dependsOn := [0]
  reason := "not yet created"
  dependencies := ["group"]

/-- Once the target group has been updated and the listener created, nothing is left to do. -/
theorem converges_checked :
    ∃ g plan trace m next, Graph.ofDeclarations checkedDeclarations = .ok g ∧
      Plan.synthesize g (some checkedState) ⟨0, 0⟩ = .ok plan ∧
      Execution (.ofApply {}) plan trace m ∧ KeepsOutputs trace ∧
      Plan.synthesize g (some (checkedState.applyReport plan m.coordinator.report .apply ⟨1, 0⟩))
        ⟨1, 0⟩ = .ok next ∧ ∀ step ∈ next.steps, step.action = .noop := by
  obtain ⟨g, hg, hsteps⟩ : ∃ g, Graph.ofDeclarations checkedDeclarations = .ok g ∧
      Synthesis.steps g (some checkedState) = .ok [groupUpdate, listenerCreation] := ⟨_, rfl, rfl⟩
  let plan : Plan := {
    createdAt := ⟨0, 0⟩
    configHash := Fingerprint.ofGraph g
    steps := [groupUpdate, listenerCreation] }
  have hplan : Plan.synthesize g (some checkedState) ⟨0, 0⟩ = .ok plan :=
    bind_eq_ok_iff.2 ⟨_, hsteps, rfl⟩
  have h₀ : Execution (.ofApply {}) plan [] _ := .start rfl
  have h₁ := h₀.next (.start rfl)
  have h₂ := h₁.next (@Moment.Move.call _ _ [] _ _ _ _ rfl)
  have h₃ := h₂.next (@Moment.Move.finish _ _ [] _ _ _ _ (Reply.ok checkedOutputs) _ _ rfl rfl rfl)
  have h₄ := h₃.next (@Moment.Move.collect _ _ [] _ _ _)
  have h₅ := h₄.next (.start rfl)
  have h₆ := h₅.next (@Moment.Move.call _ _ [] _ _ _ _ rfl)
  have h₇ := h₆.next (@Moment.Move.finish _ _ [] _ _ _ _
    (Reply.ok { providerId := "li-1" } : Reply CreatedResource) _ _ rfl rfl rfl)
  have h₈ := h₇.next (@Moment.Move.collect _ _ [] _ _ _)
  obtain ⟨trace, m, run, hkeeps, hsuccess⟩ : ∃ trace m, Execution (.ofApply {}) plan trace m ∧
      KeepsOutputs trace ∧ m.coordinator.report.isSuccess = true := by
    refine ⟨_, _, h₈, ?_, rfl⟩
    intro step kind id attributes fresh hevent name old new hold hname hnew
    simp at hevent
    obtain ⟨rfl, -, rfl⟩ := hevent
    obtain ⟨rfl, rfl⟩ : name = "arn" ∧ old = .string "arn-1" := by
      have hmem : (name, old) ∈ [("arn", Json.string "arn-1")] := Table.mem_entries.2 hold
      simpa using hmem
    obtain rfl : Json.string "arn-1" = new := Option.some.inj hnew
    exact Json.agrees_refl _
  have hkeys : ∀ s, some checkedState = some s → s.KeysMatch := by
    rintro s ⟨⟩
    decide +kernel
  have hdone := (Plan.converges hg hkeys hplan run hkeeps "shop" "test" .apply ⟨0, 0⟩ ⟨1, 0⟩ ⟨1, 0⟩
    (rfl : checkedState.applyReport plan m.coordinator.report .apply ⟨1, 0⟩ = _)).1
  obtain ⟨next, hnext, hnoop⟩ := hdone hsuccess
  exact ⟨g, plan, trace, m, next, hg, hplan, run, hkeeps, hnext, hnoop⟩

end Plan

end Converge
