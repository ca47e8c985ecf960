import Converge.Proofs.Convergence

/-!
# References that are current

After an apply that has succeeded the records hold what the references of their nodes stand for by
then. One gap is left. Of a node that is updated in place the plan expects that it keeps all outputs
but those that a changed attribute names. So an attribute can hold an output that the update has
replaced since.

Main statement: `Plan.current_unless_overtaken`.
-/

namespace Converge

/-! ## Outputs -/

def State.output? (s : State) (r : Reference) : Option Json :=
  (s.get? r.nodeId).bind fun held => held.outputs.get? r.output

/-- What a reference stands for: an output that is declared, for a node that exists elsewhere, or
else recorded. -/
def Graph.output? (g : Graph) (s : State) (r : Reference) : Option Json :=
  match (g.node? r.nodeId).map Node.lifecycle with
  | some (.existing _ outputs) => outputs.get? r.output
  | _ => s.output? r

/-- Whether the plan holds the value of an attribute of a node, and does not defer it. -/
def Plan.Resolves (plan : Plan) (id name : String) : Prop :=
  ∃ step ∈ plan.steps, step.nodeId = id ∧ step.action ≠ .delete ∧ step.resolved.contains name = true

/-- Whether an output that was recorded before has been replaced by an update in place, although no
changed attribute has its name. -/
structure Overtaken (g : Graph) (plan : Plan) (before after : State) (r : Reference) (old : Json) :
    Prop where
  updated : ∃ step ∈ plan.steps, step.nodeId = r.nodeId ∧ step.action = .update ∧
    r.output ∉ step.changes.map (·.name)
  before : before.output? r = some old
  after : ∃ new, g.output? after r = some new ∧ new.agrees old = false

/-! ## Attributes -/

/-- Whether attributes are the declared ones with every reference replaced by an output that it may
see there. -/
structure Filled (Sees : String → Reference → Json → Prop) (declared : Declared)
    (attributes : Attributes) : Prop where
  wanted : ∀ {name : String} {value : AttributeValue}, declared.get? name = some value →
    ∃ f known held, (∀ r ∈ value.references, ∃ x, f r = some x ∧ Sees name r x) ∧
      value.substitute f = some known ∧ attributes.get? name = some held ∧
        known.agrees held = true
  held : ∀ {name : String} {held : Json}, attributes.get? name = some held →
    ∃ value, declared.get? name = some value

/-- What has been written is filled with outputs that agree with what was known, and with those that
were read in the end. -/
theorem Written.filled {lookup : Reference → Lookup} {t : OutputTable} {declared : Declared}
    {recorded : Attributes} {Sees : String → Reference → Json → Prop}
    (h : Written lookup t declared recorded)
    (hread : ∀ {name : String} {value : AttributeValue}, declared.get? name = some value →
      ∀ r ∈ value.references, ∀ x, t.get? r = some x → Sees name r x)
    (hknown : ∀ {name : String} {value : AttributeValue} {known : Json},
      declared.get? name = some value → value.resolveWith lookup = .resolved known →
      ∀ r ∈ value.references, ∀ x, lookup r = .known x → ∃ y, Sees name r y ∧ y.agrees x = true) :
    Filled Sees declared recorded := by
  refine ⟨fun {name value} hvalue => ?_, h.held⟩
  rcases h.parts hvalue with ⟨known, old, hresolved, hold, hagrees⟩ | ⟨-, now, hnow, hrecorded⟩
  · have hseen : ∀ r, ∃ seen : Option Json, r ∈ value.references → ∃ x y,
        lookup r = .known x ∧ seen = some y ∧ Sees name r y ∧ y.agrees x = true := by
      intro r
      by_cases hr : r ∈ value.references
      · obtain ⟨x, hx⟩ := exists_known_of_resolved hresolved r hr
        obtain ⟨y, hy, hsame⟩ := hknown hvalue hresolved r hr x hx
        exact ⟨some y, fun _ => ⟨x, y, hx, rfl, hy, hsame⟩⟩
      · exact ⟨none, fun hmem => absurd hmem hr⟩
    choose f hf using hseen
    obtain ⟨now, hnow, hsame⟩ := exists_substitute_of_known (f := f) hresolved fun r hr x hx => by
      obtain ⟨x', y, hx', hy, -, hsame⟩ := hf r hr
      rw [hx] at hx'
      obtain rfl := Lookup.known.inj hx'
      exact ⟨y, hy, hsame⟩
    refine ⟨f, now, old, fun r hr => ?_, hnow, hold, Json.agrees_trans now hsame hagrees⟩
    obtain ⟨x, y, -, hy, hsees, -⟩ := hf r hr
    exact ⟨y, hy, hsees⟩
  · refine ⟨t.get?, now, now, fun r hr => ?_, hnow, hrecorded, Json.agrees_refl now⟩
    obtain ⟨x, hx⟩ := (AttributeValue.exists_substitute_iff value).1 ⟨now, hnow⟩ r hr
    exact ⟨x, hx, hread hvalue r hr x hx⟩

namespace Synthesis

variable {g : Graph} {prior : Option State} {plan : Plan} {order : List Node}
  {forced : Table String} {plans : List NodePlan} {deletions : List Step}
  {settings : RunSettings} {trace : List Event} {m : Moment} {s : State} {operation : Operation}
  {finished : Instant} {p : NodePlan}

/-- An update in place that brings another output overtakes what was resolved with the old one. -/
theorem Renewed.overtaken {records : Table Record} {step : Step} {outcome : Outcome}
    {before after : State} {r : Reference} {old new : Json}
    (h : Renewed records trace step outcome r.output old new)
    (hs : ∀ id, before.get? id = records.get? id) (hstep : step ∈ plan.steps)
    (hid : step.nodeId = r.nodeId) (hafter : g.output? after r = some new)
    (hother : new.agrees old = false) : Overtaken g plan before after r old := by
  obtain ⟨held, hheld, houtputs⟩ := h.recorded
  refine ⟨⟨step, hstep, hid, h.action, h.unnamed⟩, ?_, new, hafter, hother⟩
  rw [State.output?, hs, ← hid, hheld, Option.bind_some, houtputs, h.held]

theorem Carried.resolves {lookup : Reference → Lookup} {k : Nat} {step : Step} {outcome : Outcome}
    (h : Carried g plan m k p step outcome)
    (hparted : NodePlan.Parted lookup p.node.attributes p.resolved p.deferred) {name : String}
    {value : AttributeValue} {known : Json} (hvalue : p.node.attributes.get? name = some value)
    (hresolved : value.resolveWith lookup = .resolved known) : plan.Resolves p.node.id name := by
  refine ⟨step, List.mem_of_getElem? h.planned, h.nodeId, ?_, ?_⟩
  · rw [h.action]
    exact Origin.action_ne_delete _
  · obtain ⟨deleted, placed, rfl⟩ := h.made
    rw [stepFor_resolved]
    exact Table.contains_iff.2 ⟨known, hparted.resolved.2 ⟨value, hvalue, hresolved⟩⟩

namespace Origin

theorem output?_eq (h : Origin g prior plan order forced plans deletions) (hg : g.Linked)
    (run : Execution settings plan trace m) (hs : ∀ id, s.get? id = (recordsOf prior).get? id)
    (hp : p ∈ plans) (hmem : p.node.id ∈ m.coordinator.report.carriedOut plan) {r : Reference}
    (hid : r.nodeId = p.node.id) :
    g.output? (s.applyReport plan m.coordinator.report operation finished) r =
      m.outputs.get? r := by
  obtain ⟨i, hi⟩ := List.mem_iff_getElem?.1 hp
  obtain ⟨step, outcome, hcarried⟩ := h.exists_carried hi hmem
  have hnode : g.node? r.nodeId = some p.node :=
    (Graph.node?_eq_some_iff hg.coherent.nodup).2 ⟨h.perm.mem_iff.1 (h.node_mem hp), hid.symm⟩
  rw [hcarried.get?_outputs (run.informed h.single) hid, Graph.output?, hnode, Option.map_some]
  cases hlifecycle : p.node.lifecycle with
  | existing providerId outputs => rw [h.outputs_of_existing run hp hcarried hlifecycle]
  | managed =>
    obtain ⟨held, hheld, hleft⟩ := h.exists_record run hs hi hcarried hlifecycle
    dsimp only
    rw [State.output?, hid, hheld, Option.bind_some, hleft.outputs]

end Origin

end Synthesis

namespace Plan

/-- After an apply in which every step has succeeded, what is recorded of a managed node is what it
is declared with, every reference replaced by what it stands for. Only an attribute that the plan
has not deferred may still hold what an output was before an update in place has replaced it. -/
theorem current_unless_overtaken {declarations : List Declaration} {g : Graph}
    {prior : Option State} {now : Instant} {plan : Plan} {settings : RunSettings}
    {trace : List Event} {m : Moment} (hg : Graph.ofDeclarations declarations = .ok g)
    (hprior : ∀ s, prior = some s → s.KeysMatch)
    (hplan : Plan.synthesize g prior now = .ok plan) (run : Execution settings plan trace m)
    (hall : ∀ outcome ∈ m.coordinator.report.steps, outcome.status = .succeeded)
    (project environment : String) (operation : Operation) (started finished : Instant)
    {before after : State} (hbefore : before = prior.getD (.new project environment started))
    (hafter : after = before.applyReport plan m.coordinator.report operation finished) :
    ∀ node ∈ g.nodes, node.lifecycle = .managed → ∃ r, after.get? node.id = some r ∧
      Filled (fun name target x => g.output? after target = some x ∨
        plan.Resolves node.id name ∧ Overtaken g plan before after target x)
        node.attributes r.attributes := by
  have hlinked := Graph.Linked.ofDeclarations hg
  obtain ⟨order, forced, plans, deletions, horigin⟩ :=
    Synthesis.Origin.exists_of_synthesize hlinked hprior hplan
  have hs : ∀ id, before.get? id = (Synthesis.recordsOf prior).get? id := by
    intro id
    rw [hbefore, Synthesis.get?_getD_new]
  intro node hnode hmanaged
  obtain ⟨p, hp, rfl⟩ := horigin.exists_plan (horigin.perm.mem_iff.2 hnode)
  obtain ⟨i, hi⟩ := List.mem_iff_getElem?.1 hp
  have hmem := horigin.carriedOut_of_forall run hall hi
  obtain ⟨step, outcome, hcarried⟩ := horigin.exists_carried hi hmem
  obtain ⟨r, hr, hleft⟩ := horigin.exists_record run hs hi hcarried hmanaged
  -- What its references stand for in the end is what the run has recorded for their nodes.
  have hcurrent : ∀ {name : String} {value : AttributeValue},
      p.node.attributes.get? name = some value → ∀ target ∈ value.references,
        g.output? after target = m.outputs.get? target := by
    intro name value hvalue target htarget
    obtain ⟨k, q, other, earlier, hq, hid, hdone⟩ := horigin.carried_dependency hlinked run hi hmem
      (Verdict.mem_dependencyIds hvalue htarget)
    rw [hafter]
    exact horigin.output?_eq hlinked run hs hq hdone.mem hid.symm
  refine ⟨r, hafter ▸ hr, hleft.attributes.filled ?_ ?_⟩
  · intro name value hvalue target htarget x hx
    exact .inl ((hcurrent hvalue target htarget).trans hx)
  · intro name value known hvalue hresolved target htarget x hx
    rcases horigin.known_of_carried hlinked run hi hmem hvalue htarget hx with
      hstays | ⟨other, earlier, new, hother, hid, hrenewed, hnew⟩
    · exact ⟨x, .inl ((hcurrent hvalue target htarget).trans hstays), Json.agrees_refl x⟩
    · have hafterwards := (hcurrent hvalue target htarget).trans hnew
      by_cases hsame : new.agrees x = true
      · exact ⟨new, .inl hafterwards, hsame⟩
      · have hparted := (horigin.decided p hp).parted hmanaged
        have hresolves := hcarried.resolves hparted hvalue hresolved
        exact ⟨x, .inr ⟨hresolves, hrenewed.overtaken hs hother hid hafterwards
          (Bool.eq_false_iff.2 hsame)⟩, Json.agrees_refl x⟩

/-- The listener of the checked declarations. -/
def checkedListener : Node where
  id := "listener"
  kind := .listener
  attributes := .ofList [("group", .output "group" "arn")]

def readdressedOutputs : Outputs := .ofList [("arn", .string "arn-2")]

/-- The target group is updated and gets another address, and all the same the listener is created
with the old one. -/
theorem exists_readdressed : ∃ g plan trace m after,
    Graph.ofDeclarations checkedDeclarations = .ok g ∧ checkedState.KeysMatch ∧
      Plan.synthesize g (some checkedState) ⟨0, 0⟩ = .ok plan ∧
      Execution (.ofApply {}) plan trace m ∧
      (∀ outcome ∈ m.coordinator.report.steps, outcome.status = .succeeded) ∧
      after = checkedState.applyReport plan m.coordinator.report .apply ⟨1, 0⟩ ∧
      checkedListener ∈ g.nodes ∧ g.output? after ⟨"group", "arn"⟩ = some (.string "arn-2") ∧
      ∃ r, after.get? "listener" = some r ∧ r.attributes.get? "group" = some (.string "arn-1") := by
  obtain ⟨g, hg, hsteps, hnodes, hgroup⟩ : ∃ g, Graph.ofDeclarations checkedDeclarations = .ok g ∧
      Synthesis.steps g (some checkedState) = .ok [groupUpdate, listenerCreation] ∧
      g.nodes = checkedDeclarations.map Declaration.node ∧
      (g.node? "group").map Node.lifecycle = some .managed := ⟨_, rfl, rfl, rfl, rfl⟩
  let plan : Plan := {
    createdAt := ⟨0, 0⟩
    configHash := Fingerprint.ofGraph g
    steps := [groupUpdate, listenerCreation] }
  have hplan : Plan.synthesize g (some checkedState) ⟨0, 0⟩ = .ok plan :=
    bind_eq_ok_iff.2 ⟨_, hsteps, rfl⟩
  have h₀ : Execution (.ofApply {}) plan [] _ := .start rfl
  have h₁ := h₀.next (.start rfl)
  have h₂ := h₁.next (@Moment.Move.call _ _ [] _ _ _ _ rfl)
  have h₃ := h₂.next (@Moment.Move.finish _ _ [] _ _ _ _ (Reply.ok readdressedOutputs) _ _ rfl rfl
    rfl)
  have h₄ := h₃.next (@Moment.Move.collect _ _ [] _ _ _)
  have h₅ := h₄.next (.start rfl)
  have h₆ := h₅.next (@Moment.Move.call _ _ [] _ _ _ _ rfl)
  have h₇ := h₆.next (@Moment.Move.finish _ _ [] _ _ _ _
    (Reply.ok { providerId := "li-1" } : Reply CreatedResource) _ _ rfl rfl rfl)
  have h₈ := h₇.next (@Moment.Move.collect _ _ [] _ _ _)
  refine ⟨g, plan, _, _, _, hg, by decide +kernel, hplan, h₈, ?_, rfl, ?_, ?_, _, rfl, rfl⟩
  · exact (Report.isSuccess_iff.1 rfl).2
  · rw [hnodes]
    exact .tail _ (.head _)
  · rw [Graph.output?, hgroup]
    rfl

/-- So the listener is not recorded as it is declared: its target group has another address by
then. -/
theorem stale_readdressed : ∃ g plan trace m after,
    Graph.ofDeclarations checkedDeclarations = .ok g ∧ checkedState.KeysMatch ∧
      Plan.synthesize g (some checkedState) ⟨0, 0⟩ = .ok plan ∧
      Execution (.ofApply {}) plan trace m ∧
      (∀ outcome ∈ m.coordinator.report.steps, outcome.status = .succeeded) ∧
      after = checkedState.applyReport plan m.coordinator.report .apply ⟨1, 0⟩ ∧
      checkedListener ∈ g.nodes ∧ checkedListener.lifecycle = .managed ∧
      ¬∃ r, after.get? checkedListener.id = some r ∧
        Filled (fun _ target x => g.output? after target = some x) checkedListener.attributes
          r.attributes := by
  obtain ⟨g, plan, trace, m, after, hg, hkeys, hplan, run, hall, hafter, hnode, hgroup, r, hr,
    hrecorded⟩ := exists_readdressed
  refine ⟨g, plan, trace, m, after, hg, hkeys, hplan, run, hall, hafter, hnode, rfl, ?_⟩
  rintro ⟨held, hheld, hfilled⟩
  obtain rfl := Option.some.inj (hr.symm.trans hheld)
  have hvalue : checkedListener.attributes.get? "group" = some (.output "group" "arn") := rfl
  obtain ⟨f, known, old, hsees, hknown, hold, hagrees⟩ := hfilled.wanted hvalue
  obtain ⟨x, hx, hcurrent⟩ := hsees ⟨"group", "arn"⟩ (List.mem_singleton.2 rfl)
  -- The declared address comes to the new one, and what is recorded is the old one.
  obtain rfl := Option.some.inj (hgroup.symm.trans hcurrent)
  obtain rfl := Option.some.inj (hx.symm.trans hknown)
  obtain rfl := Option.some.inj (hrecorded.symm.trans hold)
  revert hagrees
  decide

/-- What the listener holds is the address that the update has replaced. -/
theorem current_unless_overtaken_readdressed : ∃ g plan trace m after r,
    Graph.ofDeclarations checkedDeclarations = .ok g ∧ checkedState.KeysMatch ∧
      Plan.synthesize g (some checkedState) ⟨0, 0⟩ = .ok plan ∧
      Execution (.ofApply {}) plan trace m ∧
      (∀ outcome ∈ m.coordinator.report.steps, outcome.status = .succeeded) ∧
      after = checkedState.applyReport plan m.coordinator.report .apply ⟨1, 0⟩ ∧
      checkedListener ∈ g.nodes ∧ checkedListener.lifecycle = .managed ∧
      after.get? checkedListener.id = some r ∧
      r.attributes.get? "group" = some (.string "arn-1") ∧
      Filled (fun name target x => g.output? after target = some x ∨
        plan.Resolves checkedListener.id name ∧ Overtaken g plan checkedState after target x)
        checkedListener.attributes r.attributes := by
  obtain ⟨g, plan, trace, m, after, hg, hkeys, hplan, run, hall, hafter, hnode, -, held, hheld,
    hrecorded⟩ := exists_readdressed
  have hprior : ∀ s, some checkedState = some s → s.KeysMatch := by
    rintro s ⟨⟩
    exact hkeys
  obtain ⟨r, hr, hfilled⟩ := Plan.current_unless_overtaken hg hprior hplan run hall "shop" "test"
    .apply ⟨0, 0⟩ ⟨1, 0⟩ rfl hafter checkedListener hnode rfl
  obtain rfl := Option.some.inj (hheld.symm.trans hr)
  exact ⟨g, plan, trace, m, after, _, hg, hkeys, hplan, run, hall, hafter, hnode, rfl, hr,
    hrecorded, hfilled⟩

end Plan

end Converge
