import Converge.Proofs.Convergence

/-!
# What is recorded of declared nodes

What an apply records of a node whose step has succeeded is what is declared: its kind, its removal
policy and what it depends on, or nothing if it is declared as existing. Of all other nodes nothing
new is recorded.

Main statements: `Synthesis.Origin.mirrors` and `State.get?_of_not_carriedOut`.
-/

namespace Converge

/-- Whether a record is that of a node as a graph declares it. -/
structure Record.Reflects (g : Graph) (node : Node) (r : Record) : Prop where
  kind : r.kind = node.kind
  removalPolicy : r.removalPolicy = node.removalPolicy
  dependencies : r.dependencies = g.dependencies node.id

/-- Whether the records are those of the managed nodes of a graph, as it declares them. -/
structure Recorded.Mirrors (g : Graph) (records : Table Record) : Prop where
  declared : ∀ {id : String} {r : Record}, records.get? id = some r →
    ∃ node ∈ g.nodes, node.id = id ∧ node.lifecycle = .managed
  reflects : ∀ node ∈ g.nodes, node.lifecycle = .managed →
    ∃ r, records.get? node.id = some r ∧ r.Reflects g node

/-- A record that there is of a node that has not been carried out has been there before. -/
theorem State.get?_of_not_carriedOut {s : State} {plan : Plan} {report : Report}
    {operation : Operation} {now : Instant} {id : String} {r : Record}
    (hindex : ∀ {k : Nat} {outcome : Outcome}, report.steps[k]? = some outcome → outcome.index = k)
    (hid : id ∉ report.carriedOut plan)
    (hr : (s.applyReport plan report operation now).get? id = some r) : s.get? id = some r := by
  rw [get?_applyReport] at hr
  refine foldl_recordOutcome (P := fun s' => s'.get? id = some r → s.get? id = some r)
    (fun hr => hr) ?_ hr
  intro outcome houtcome hsucceeded step hstep s' hs' hr
  by_cases hnode : step.nodeId = id
  · subst hnode
    by_cases hdelete : step.action = .delete
    · rw [get?_recordStep_delete hdelete] at hr
      cases hr
    · obtain ⟨k, hk⟩ := List.mem_iff_getElem?.1 houtcome
      rw [hindex hk] at hstep
      exact absurd ⟨k, step, outcome, hstep, rfl, hdelete, hk, hsucceeded⟩ hid
  · rw [get?_recordStep_of_ne hnode] at hr
    exact hs' hr

namespace Synthesis

variable {g : Graph} {prior : Option State} {plan : Plan} {order : List Node}
  {forced : Table String} {plans : List NodePlan} {deletions : List Step}
  {settings : RunSettings} {trace : List Event} {m : Moment}

namespace Origin

variable {s : State} {operation : Operation} {finished : Instant} {i : Nat} {p : NodePlan}

theorem exists_of_carriedOut (h : Origin g prior plan order forced plans deletions) {id : String}
    (hid : id ∈ m.coordinator.report.carriedOut plan) :
    ∃ (i : Nat) (p : NodePlan), plans[i]? = some p ∧ p.node.id = id := by
  obtain ⟨k, step, outcome, hstep, rfl, hdelete, -⟩ := hid
  rcases h.getElem?_cases hstep with hdeletion | ⟨i, p, -, hp, rfl⟩
  · exact absurd (h.removal.action step (List.mem_of_getElem? hdeletion)) hdelete
  · exact ⟨i, p, hp, stepFor_nodeId.symm⟩

/-- A managed node that has been carried out is recorded as it is declared. -/
theorem reflected (h : Origin g prior plan order forced plans deletions)
    (run : Execution settings plan trace m) (hs : ∀ id, s.get? id = (recordsOf prior).get? id)
    (hp : plans[i]? = some p) (hmem : p.node.id ∈ m.coordinator.report.carriedOut plan)
    (hmanaged : p.node.lifecycle = .managed) :
    ∃ r, (s.applyReport plan m.coordinator.report operation finished).get? p.node.id = some r ∧
      r.Reflects g p.node := by
  obtain ⟨step, outcome, hcarried⟩ := h.exists_carried hp hmem
  have hpolicy : step.removalPolicy = p.node.removalPolicy := by
    obtain ⟨deleted, placed, rfl⟩ := hcarried.made
    exact stepFor_removalPolicy
  obtain ⟨r, hr, hleft⟩ := h.exists_record run hs hp hcarried hmanaged
  exact ⟨r, hr, hleft.kind, hleft.removalPolicy.trans hpolicy,
    hleft.dependencies.trans hcarried.dependencies⟩

theorem forgotten (h : Origin g prior plan order forced plans deletions)
    (run : Execution settings plan trace m) (hp : plans[i]? = some p)
    (hmem : p.node.id ∈ m.coordinator.report.carriedOut plan)
    (hexisting : p.node.lifecycle ≠ .managed) :
    (s.applyReport plan m.coordinator.report operation finished).get? p.node.id = none := by
  obtain ⟨step, outcome, hcarried⟩ := h.exists_carried hp hmem
  have hrecord := h.get?_of_carried s operation finished run hcarried
  obtain ⟨deleted, placed, rfl⟩ := hcarried.made
  obtain ⟨hnoop, hunmanaged⟩ :=
    (h.managed_or_noop (List.mem_of_getElem? hp) deleted placed _).resolve_left hexisting
  rw [hrecord, State.get?_recordStep_noop hnoop, hunmanaged]
  rfl

/-- Whatever is recorded of a node that has been carried out is what is declared. -/
theorem reflects_of_recorded (h : Origin g prior plan order forced plans deletions)
    (run : Execution settings plan trace m) (hs : ∀ id, s.get? id = (recordsOf prior).get? id)
    (hp : plans[i]? = some p) (hmem : p.node.id ∈ m.coordinator.report.carriedOut plan)
    {r : Record}
    (hr : (s.applyReport plan m.coordinator.report operation finished).get? p.node.id = some r) :
    p.node.lifecycle = .managed ∧ r.Reflects g p.node := by
  have hmanaged : p.node.lifecycle = .managed := by
    by_contra hexisting
    rw [h.forgotten run hp hmem hexisting] at hr
    cases hr
  obtain ⟨held, hheld, hreflects⟩ := h.reflected run hs hp hmem hmanaged
  obtain rfl := Option.some.inj (hr.symm.trans hheld)
  exact ⟨hmanaged, hreflects⟩

theorem carriedOut_of_declared (h : Origin g prior plan order forced plans deletions)
    (run : Execution settings plan trace m) (hsuccess : m.coordinator.report.isSuccess = true)
    {node : Node} (hnode : node ∈ g.nodes) : ∃ (i : Nat) (p : NodePlan), plans[i]? = some p ∧
      p.node = node ∧ node.id ∈ m.coordinator.report.carriedOut plan := by
  obtain ⟨p, hp, rfl⟩ := h.exists_plan (h.perm.mem_iff.2 hnode)
  obtain ⟨i, hi⟩ := List.mem_iff_getElem?.1 hp
  exact ⟨i, p, hi, rfl, h.carriedOut_of_success run hsuccess hi⟩

/-- After a run in which every step has succeeded exactly what is declared is recorded. -/
theorem mirrors (h : Origin g prior plan order forced plans deletions)
    (run : Execution settings plan trace m) (hs : ∀ id, s.get? id = (recordsOf prior).get? id)
    (hsuccess : m.coordinator.report.isSuccess = true) :
    Recorded.Mirrors g (s.applyReport plan m.coordinator.report operation finished).resources := by
  refine ⟨fun {id r} hr => ?_, fun node hnode hmanaged => ?_⟩
  · obtain ⟨node, hnode, rfl⟩ := h.declared_of_success run hsuccess hs hr
    obtain ⟨i, p, hp, rfl, hmem⟩ := h.carriedOut_of_declared run hsuccess hnode
    exact ⟨p.node, hnode, rfl, (h.reflects_of_recorded run hs hp hmem hr).1⟩
  · obtain ⟨i, p, hp, rfl, hmem⟩ := h.carriedOut_of_declared run hsuccess hnode
    exact h.reflected run hs hp hmem hmanaged

/-- If a plan has nothing to do, nothing undeclared is recorded, and every managed node is. -/
theorem recorded_of_converged (h : Origin g prior plan order forced plans deletions)
    (hconverged : plan.isConverged = true) :
    (∀ {id : String} {r : Record}, (recordsOf prior).get? id = some r →
      ∃ node ∈ g.nodes, node.id = id) ∧
    ∀ node ∈ g.nodes, node.lifecycle = .managed →
      ∃ r, (recordsOf prior).get? node.id = some r ∧ r.kind = node.kind := by
  have hnoop : ∀ step ∈ plan.steps, step.action = .noop := by
    simpa [Plan.isConverged] using hconverged
  constructor
  · intro id r hr
    by_contra hnone
    have hundeclared : g.contains id = false :=
      Bool.eq_false_iff.2 fun hmem => hnone (Graph.mem_ids.1 (Graph.contains_iff.1 hmem))
    obtain ⟨step, hstep, -⟩ :=
      h.removal.complete hr (Doomed.contains_ofPlans.2 (.inl ⟨hundeclared, r, hr⟩))
    obtain ⟨hplanned, hdelete⟩ := h.mem_deletions_iff.1 hstep
    exact nomatch hdelete.symm.trans (hnoop step hplanned)
  · intro node hnode hmanaged
    obtain ⟨p, hp, rfl⟩ := h.exists_plan (h.perm.mem_iff.2 hnode)
    obtain ⟨i, hi⟩ := List.mem_iff_getElem?.1 hp
    have haction := hnoop _ (List.mem_of_getElem? (h.getElem?_step hi))
    rw [stepFor_action] at haction
    cases h.decided p hp with
    | existing providerId outputs lifecycle => exact nomatch hmanaged.symm.trans lifecycle
    | create _ _ decision => exact nomatch (decision ▸ haction : Decision.create.action = .noop)
    | replace r _ _ decision => exact nomatch (decision ▸ haction : Decision.replace.action = .noop)
    | update r _ _ _ decision => exact nomatch (decision ▸ haction : Decision.update.action = .noop)
    | keep r _ record _ _ _ kind => exact ⟨r, record, kind⟩

end Origin

end Synthesis

end Converge
