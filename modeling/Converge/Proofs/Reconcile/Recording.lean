import Converge.Proofs.Reconcile.Protection

/-!
# What a successful apply records

An apply that succeeds in carrying out a plan leaves recorded what is declared, and nothing else.
One that finds nothing to do records nothing, although removal policies and dependencies may be
declared otherwise than they were recorded, and nodes declared as existing may be recorded as
managed.

Main statement: `Turn.Ran.recorded_of_success`.
-/

namespace Converge

open Reconcile Synthesis

namespace State

theorem configHash_recordOutcome {s : State} {plan : Plan} {now : Instant} {outcome : Outcome} :
    (s.recordOutcome plan now outcome).configHash = s.configHash := by
  have hremove : ∀ id, (s.remove id now).configHash = s.configHash := by
    intro id
    rw [remove]
    split <;> rfl
  have hmodify : ∀ id f, (s.modifyRecord id f).configHash = s.configHash := by
    intro id f
    rw [modifyRecord]
    split <;> rfl
  rw [recordOutcome]
  split
  · split
    · next step _ =>
      rw [recordStep]
      split
      · exact hremove step.nodeId
      · rw [setRecord]
        split <;> rfl
      · exact hmodify step.nodeId _
      · split
        · exact hmodify step.nodeId _
        · exact hremove step.nodeId
    · rfl
  · rfl

/-- The fingerprint of a plan is recorded only once the plan is carried out in full. -/
theorem configHash_applyReport {s : State} {plan : Plan} {report : Report} {operation : Operation}
    {now : Instant} : (s.applyReport plan report operation now).configHash =
      if report.isSuccess = true then plan.configHash else s.configHash := by
  have hfold : ∀ (outcomes : List Outcome) (s : State),
      (outcomes.foldl (recordOutcome plan now) s).configHash = s.configHash := by
    intro outcomes
    induction outcomes with
    | nil => exact fun _ => rfl
    | cons outcome rest ih => exact fun s => (ih _).trans configHash_recordOutcome
  simp only [applyReport, addHistory]
  split
  · rfl
  · exact hfold report.steps s

end State

namespace Turn

variable {turn : Turn}

/-- An apply that succeeds in carrying out a plan leaves recorded exactly what is declared, and the
fingerprint of that. One that succeeds otherwise leaves everything as it was; then every recorded
node is declared, and every managed node is recorded with its kind. -/
theorem Ran.recorded_of_success (h : turn.Ran) (hkeys : ∀ s, turn.before = some s → s.KeysMatch)
    (hoperation : turn.operation = .apply) (hsuccess : turn.Succeeds) :
    ∃ g, Graph.ofStack turn.stack = .ok g ∧
      (turn.CarriesOut → Recorded.Mirrors g (recordsOf turn.after) ∧
        ∀ s, turn.after = some s → s.configHash = Fingerprint.ofGraph g) ∧
      (¬ turn.CarriesOut → turn.after = turn.before ∧ turn.events = [] ∧
        (∀ {id : String} {r : Record}, (recordsOf turn.after).get? id = some r →
          ∃ node ∈ g.nodes, node.id = id) ∧
        ∀ node ∈ g.nodes, node.lifecycle = .managed →
          ∃ r, (recordsOf turn.after).get? node.id = some r ∧ r.kind = node.kind) := by
  obtain ⟨result, hresult, hsuccess⟩ := hsuccess
  cases h.course with
  | broken _ _ _ failed =>
    obtain ⟨cause, hfailed⟩ := failed
    exact nomatch hfailed.symm.trans hresult
  | idle events after found =>
    obtain ⟨hreport, plan, now, planned, hconverged⟩ := found result hresult
    obtain ⟨g, order, forced, plans, deletions, hg, horigin⟩ :=
      exists_origin hkeys hoperation planned
    refine ⟨g, hg, fun hdone => ?_, fun _ => ?_⟩
    · obtain ⟨result', hresult', -, hnone⟩ := hdone
      obtain rfl := Except.ok.inj (hresult.symm.trans hresult')
      exact absurd hreport hnone
    · obtain ⟨hdeclared, hmanaged⟩ := horigin.recorded_of_converged hconverged
      rw [after]
      exact ⟨rfl, events, hdeclared, hmanaged⟩
  | @carried plan now later settings m planned run _ succeeded =>
    obtain ⟨rfl, hafter⟩ := succeeded result hresult
    obtain ⟨g, order, forced, plans, deletions, hg, horigin⟩ :=
      exists_origin hkeys hoperation planned
    have hhash : plan.configHash = Fingerprint.ofGraph g := by
      rw [hoperation] at planned
      obtain ⟨g', hg', hplan⟩ := bind_eq_ok_iff.1 planned
      obtain rfl := Except.ok.inj (hg.symm.trans hg')
      obtain ⟨steps, -, heq⟩ := bind_eq_ok_iff.1 hplan
      obtain rfl := pure_eq_ok_iff.1 heq
      rfl
    have hmirrors : Recorded.Mirrors g
        (turn.applied plan m.coordinator.report later).resources :=
      horigin.mirrors run (fun _ => get?_getD_new) hsuccess
    refine ⟨g, hg, fun _ => ?_, fun hnot => absurd ⟨_, hresult, hsuccess, nofun⟩ hnot⟩
    rcases hafter with hafter | ⟨hafter, hempty⟩ <;> rw [hafter]
    · refine ⟨hmirrors, ?_⟩
      rintro s ⟨⟩
      exact State.configHash_applyReport.trans ((if_pos hsuccess).trans hhash)
    · -- Nothing is left to be recorded, so no managed node is declared.
      have hnone : ∀ id, (turn.applied plan m.coordinator.report later).resources.get? id = none :=
        Table.isEmpty_iff.1 hempty
      refine ⟨⟨fun hr => (nomatch hr), fun node hnode hmanaged => ?_⟩, nofun⟩
      obtain ⟨r, hr, -⟩ := hmirrors.reflects node hnode hmanaged
      exact nomatch (hnone node.id).symm.trans hr

/-- The log sink is recorded as it is declared once it has been created. -/
theorem recorded_of_success_created : ∃ (turn : Turn) (g : Graph), turn.Ran ∧ turn.CarriesOut ∧
    Graph.ofStack turn.stack = .ok g ∧ Recorded.Mirrors g (recordsOf turn.after) := by
  obtain ⟨turn, s, hran, hbefore, -, -, hdone, ⟨node, ⟨hoperation, -⟩, -⟩, -⟩ :=
    Session.exists_created
  obtain ⟨result, hresult, hsuccess, -⟩ := id hdone
  have hkeys : ∀ s, turn.before = some s → s.KeysMatch := by
    rintro s hs
    exact nomatch hbefore.symm.trans hs
  obtain ⟨g, hg, hmirrors, -⟩ :=
    Ran.recorded_of_success hran hkeys hoperation ⟨result, hresult, hsuccess⟩
  exact ⟨turn, g, hran, hdone, hg, (hmirrors hdone).1⟩

/-- An apply that is to retain the log sink from now on succeeds without recording that, since it
has nothing else to do. -/
theorem unrecorded_of_success : ∃ (turn : Turn) (s : State) (g : Graph) (node : Node) (r : Record),
    turn.Ran ∧ turn.before = some s ∧ s.KeysMatch ∧ turn.operation = .apply ∧ turn.Succeeds ∧
      Graph.ofStack turn.stack = .ok g ∧ node ∈ g.nodes ∧ node.lifecycle = .managed ∧
      (recordsOf turn.after).get? node.id = some r ∧ r.removalPolicy ≠ node.removalPolicy := by
  let s : State := Session.sinkState (.new "shop" "test" ⟨0, 0⟩) .destroy
  obtain ⟨g, hg, hsteps, node, hnode, hid, hmanaged, hpolicy⟩ :
      ∃ g, Graph.ofStack (Session.sinkStack .retain []) = .ok g ∧
        Synthesis.steps g (some s) = .ok [{ Session.sinkKept with removalPolicy := .retain }] ∧
          ∃ node ∈ g.nodes, node.id = "logs" ∧ node.lifecycle = .managed ∧
            node.removalPolicy = .retain :=
    ⟨_, rfl, rfl, _, List.mem_cons_self .., rfl, rfl, rfl⟩
  let plan : Plan := {
    createdAt := ⟨0, 0⟩
    configHash := Fingerprint.ofGraph g
    steps := [{ Session.sinkKept with removalPolicy := .retain }] }
  have hplan : planFor (Session.sinkStack .retain []) .apply (some s) ⟨0, 0⟩ = .ok plan :=
    bind_eq_ok_iff.2 ⟨g, hg, bind_eq_ok_iff.2 ⟨_, hsteps, rfl⟩⟩
  refine ⟨_, s, g, node, Session.sinkRecord .destroy,
    ran_of_converged "session" Session.sinkLock ⟨0, 0⟩ hplan rfl, rfl, ?_, rfl, ⟨_, rfl, rfl⟩, hg,
    hnode, hmanaged, hid ▸ rfl, ?_⟩
  · decide +kernel
  · rw [hpolicy]
    decide

end Turn

end Converge
