import Converge.Proofs.Plan.Fitting

/-!
# What deferred attributes refer to

An attribute is deferred as a whole when one of its references is, so it may refer to nodes of any
decision. All of them are dependencies of its node, and each has one step that brings its outputs.

Main statement: `Synthesis.Layout.supplied`.
-/

namespace Converge

namespace Plan

/-- Whether the step at `d` brings the outputs of a node. -/
def Produces (plan : Plan) (d : Nat) (id : String) : Prop :=
  ∃ step, plan.steps[d]? = some step ∧ step.nodeId = id ∧ step.action ≠ .delete

/-- Whether the steps of a plan wait for all that their deferred attributes refer to. -/
structure Supplied (plan : Plan) : Prop where
  single : plan.Single
  waits : ∀ {k : Nat} {step : Step} {name : String} {value : AttributeValue} {r : Reference},
    plan.steps[k]? = some step → step.deferred.get? name = some value → r ∈ value.references →
    ∃ d ∈ step.dependsOn, plan.Produces d r.nodeId

theorem Supplied.unique {plan : Plan} (h : plan.Supplied) {i j : Nat} {id : String}
    (hi : plan.Produces i id) (hj : plan.Produces j id) : i = j := by
  obtain ⟨a, ha, rfl, hdelete⟩ := hi
  obtain ⟨b, hb, hid, hdelete'⟩ := hj
  exact h.single ha hb hdelete hdelete' hid.symm

end Plan

namespace Synthesis

variable {g : Graph} {prior : Option State} {plan : Plan} {order : List Node}
  {forced : Table String} {plans : List NodePlan} {deletions : List Step}

theorem Layout.supplied (h : Layout g prior plan order forced plans deletions) (hg : g.Linked) :
    plan.Supplied := by
  refine ⟨h.single, ?_⟩
  intro k step name value r hstep hdeferred hr
  rcases h.getElem?_cases hstep with hdeletion | ⟨i, p, rfl, hp, rfl⟩
  · rw [(h.bare step (List.mem_of_getElem? hdeletion)).2, Table.get?_empty] at hdeferred
    cases hdeferred
  · rw [stepFor_deferred] at hdeferred
    have hvalue := (h.decided p (List.mem_of_getElem? hp)).attribute_of_deferred hdeferred
    obtain ⟨j, q, hq, hid, hwaits⟩ :=
      h.exists_dependency hg hp (Verdict.mem_dependencyIds hvalue hr) hstep
    refine ⟨_, hwaits, _, h.getElem?_step hq, ?_, ?_⟩
    · rw [stepFor_nodeId, hid]
    · rw [stepFor_action]
      exact Origin.action_ne_delete _

end Synthesis

namespace Plan

theorem supplied_of_synthesize {declarations : List Declaration} {g : Graph}
    {prior : Option State} {now : Instant} {plan : Plan}
    (hg : Graph.ofDeclarations declarations = .ok g)
    (hplan : Plan.synthesize g prior now = .ok plan) : plan.Supplied := by
  have hlinked := Graph.Linked.ofDeclarations hg
  obtain ⟨order, forced, plans, deletions, hlayout⟩ :=
    Synthesis.Layout.exists_of_synthesize hlinked hplan
  exact hlayout.supplied hlinked

end Plan

end Converge
