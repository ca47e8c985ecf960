import Converge.Proofs.Convergence
import Converge.Proofs.Execution.Dispatch
import Converge.Proofs.Plan.Supply

/-!
# Deferred references meet their producers

A step that is taken finds the outputs of all nodes that its deferred attributes refer to. It can
only miss a single output, one that the step which brings the others has succeeded without.

Main statement: `Plan.meets_producers`.
-/

namespace Converge

variable {settings : RunSettings} {plan : Plan} {m : Moment}

/-! ## Steps that cannot be prepared -/

/-- Why a step fails before its provider is called: an attribute refers to an output that its node
has succeeded without. -/
inductive Outcome.Lacks (plan : Plan) (before : List Event) (outcome : Outcome) : Prop
  | intro (step : Step) (name : String) (value : AttributeValue) (r : Reference) (d : Nat)
    (produced : Outcome)
    (planned : plan.steps[outcome.index]? = some step)
    (deferred : step.deferred.get? name = some value)
    (reference : r ∈ value.references)
    (error : outcome.error =
      some s!"unresolved reference '{r.render}' for attribute '{name}'")
    (waits : d ∈ step.dependsOn)
    (produces : plan.Produces d r.nodeId)
    (learned : produced ∈ outcomesIn before)
    (index : produced.index = d)
    (succeeded : produced.status = .succeeded)
    (output : produced.outputs.get? r.output = none)

theorem Coordinator.dispatch_failed {s : Schedule} {step : Step} {outcome : Outcome}
    (h : dispatch s step = .inl outcome) (hfailed : outcome.status = .failed) :
    ∃ cause, s.prepare step = .error cause ∧ outcome.error = some cause := by
  rw [dispatch] at h
  split at h
  · next cause hprepare =>
    obtain rfl := Sum.inl.inj h
    exact ⟨cause, hprepare, rfl⟩
  · split at h
    · cases h
    · obtain rfl := Sum.inl.inj h
      cases hfailed

theorem Execution.lacks_of_settled (hsupplied : plan.Supplied) {before after : List Event}
    {outcome : Outcome} (h : Execution settings plan (before ++ .settled outcome :: after) m)
    (hfailed : outcome.status = .failed) : outcome.Lacks plan before := by
  obtain ⟨m₁, m₂, run, move⟩ := h.split
  have hordered := run.isWellOrdered
  have hsound := run.sound.schedule
  cases move with
  | settle take =>
    obtain ⟨i, ready, step, hready, hstep, hdispatch, -⟩ := Coordinator.takeNext_eq_some take
    rw [hsound.steps] at hstep
    obtain ⟨-, -, -, hdeps⟩ := hsound.head hready
    obtain ⟨cause, hprepare, herror⟩ := Coordinator.dispatch_failed hdispatch hfailed
    obtain ⟨name, value, r, hmem, hr, hnone, rfl⟩ :=
      Schedule.of_prepareAttributes_eq_error hprepare
    have hdeferred := Table.mem_entries.1 hmem
    obtain ⟨d, hd, hproduces⟩ := hsupplied.waits hstep hdeferred hr
    -- What it waits for has succeeded, so its outputs are on record.
    obtain ⟨produced, hproduced, hsucceeded⟩ :=
      Schedule.statusAt?_eq_some_iff.1 (hdeps step hstep d hd)
    obtain ⟨producer, hproducer, hid, hdelete⟩ := id hproduces
    have hrecorded :=
      (run.informed hsupplied.single).recorded hproducer hproduced hsucceeded hdelete
    have houtput : produced.outputs.get? r.output = none := by
      have houtputs : m₁.outputs.get? r = none := hnone
      rwa [OutputTable.get?, ← hid, hrecorded] at houtputs
    have hindex : produced.index = d := by
      rw [(hsound.label hproducer hproduced).index, Plan.index_eq hordered hproducer]
    have hplanned : plan.steps[outcome.index]? = some step := by
      rw [(Coordinator.dispatch_inl hdispatch).1.index, Plan.index_eq hordered hstep, hstep]
    exact .intro step name value r d produced hplanned hdeferred hr herror hd hproduces
      (run.mem_outcomesIn hproduced (.inl hsucceeded)) hindex hsucceeded houtput

namespace Plan

/-- Whatever is declared and recorded, a step waits for the one step that brings what it is still to
be given; and in every run, a step that cannot be prepared lacks an output that this step has
succeeded without. -/
theorem meets_producers {declarations : List Declaration} {g : Graph} {prior : Option State}
    {now : Instant} {plan : Plan} (hg : Graph.ofDeclarations declarations = .ok g)
    (hplan : Plan.synthesize g prior now = .ok plan) :
    (∀ {k : Nat} {step : Step} {name : String} {value : AttributeValue} {r : Reference},
      plan.steps[k]? = some step → step.deferred.get? name = some value → r ∈ value.references →
      ∃ d ∈ step.dependsOn, plan.Produces d r.nodeId ∧ ∀ j, plan.Produces j r.nodeId → j = d) ∧
    ∀ {settings : RunSettings} {before after : List Event} {outcome : Outcome} {m : Moment},
      Execution settings plan (before ++ .settled outcome :: after) m →
      outcome.status = .failed → outcome.Lacks plan before := by
  have hsupplied := supplied_of_synthesize hg hplan
  refine ⟨fun hstep hdeferred hr => ?_, fun run hfailed => run.lacks_of_settled hsupplied hfailed⟩
  obtain ⟨d, hd, hproduces⟩ := hsupplied.waits hstep hdeferred hr
  exact ⟨d, hd, hproduces, fun j hj => hsupplied.unique hj hproduces⟩

def groupCreation : Step where
  index := 0
  nodeId := "group"
  kind := .targetGroup
  action := .create
  resolved := .ofList [("check", .string "/new")]
  reason := "not yet created"

/-- The listener is to be given the target group that has just been created. -/
def listenerFollowing : Step where
  index := 1
  nodeId := "listener"
  kind := .listener
  action := .create
  deferred := .ofList [("group", .output "group" "arn")]
  dependsOn := [0]
  reason := "not yet created"
  dependencies := ["group"]

/-- The target group is created without an address, so the listener is not. -/
theorem meets_producers_unnamed : ∃ g plan before m outcome,
    Graph.ofDeclarations checkedDeclarations = .ok g ∧ Plan.synthesize g none ⟨0, 0⟩ = .ok plan ∧
      (∃ d ∈ listenerFollowing.dependsOn,
        plan.Produces d "group" ∧ ∀ j, plan.Produces j "group" → j = d) ∧
      Execution (.ofApply {}) plan (before ++ [.settled outcome]) m ∧ outcome.status = .failed ∧
      outcome.Lacks plan before := by
  obtain ⟨g, hg, hsteps⟩ : ∃ g, Graph.ofDeclarations checkedDeclarations = .ok g ∧
      Synthesis.steps g none = .ok [groupCreation, listenerFollowing] := ⟨_, rfl, rfl⟩
  let plan : Plan := {
    createdAt := ⟨0, 0⟩
    configHash := Fingerprint.ofGraph g
    steps := [groupCreation, listenerFollowing] }
  have hplan : Plan.synthesize g none ⟨0, 0⟩ = .ok plan := bind_eq_ok_iff.2 ⟨_, hsteps, rfl⟩
  have h₀ : Execution (.ofApply {}) plan [] _ := .start rfl
  have h₁ := h₀.next (.start rfl)
  have h₂ := h₁.next (@Moment.Move.call _ _ [] _ _ _ _ rfl)
  have h₃ := h₂.next (@Moment.Move.finish _ _ [] _ _ _ _
    (Reply.ok { providerId := "tg-1" } : Reply CreatedResource) _ _ rfl rfl rfl)
  have h₄ := h₃.next (@Moment.Move.collect _ _ [] _ _ _)
  have h₅ := h₄.next (.settle rfl)
  obtain ⟨hwaits, hlacks⟩ := Plan.meets_producers hg hplan
  have hdeferred : listenerFollowing.deferred.get? "group" = some (.output "group" "arn") := rfl
  have hreference : ⟨"group", "arn"⟩ ∈ (AttributeValue.output "group" "arn").references :=
    List.mem_singleton.2 rfl
  exact ⟨g, plan, _, _, _, hg, hplan, hwaits (k := 1) rfl hdeferred hreference, h₅, rfl,
    hlacks h₅ rfl⟩

end Plan

end Converge
