import Converge.Proofs.Plan.Fitting
import Converge.Proofs.Plan.Replacement

/-!
# What a plan covers

A plan has one deletion for everything that goes and one other step for every declared node, and
each of those waits for the steps of all that its node depends on. That no edge is lost on the way
rests on the order of the nodes, which puts what a node depends on in front of it.

Main statement: `Plan.covers_of_synthesize`.
-/

namespace Converge

/-! ## Parted attributes -/

/-- Attributes without missing references are known or deferred, and none is both. -/
theorem NodePlan.Parted.contains {lookup : Reference → Lookup} {attributes : Declared}
    {resolved : Attributes} {deferred : Declared} (h : Parted lookup attributes resolved deferred)
    (name : String) :
    (attributes.contains name = true ↔
      resolved.contains name = true ∨ deferred.contains name = true) ∧
    ¬ (resolved.contains name = true ∧ deferred.contains name = true) := by
  simp only [Table.contains_iff, h.resolved, h.deferred]
  refine ⟨⟨?_, ?_⟩, ?_⟩
  · rintro ⟨value, hvalue⟩
    cases hknown : value.resolveWith lookup with
    | resolved known => exact .inl ⟨known, value, hvalue, hknown⟩
    | deferred => exact .inr ⟨value, hvalue, hknown⟩
    | unresolved target =>
      obtain ⟨r, hr, hmissing⟩ := (AttributeValue.exists_unresolved_iff value).1 ⟨target, hknown⟩
      exact absurd hmissing (h.found hvalue r hr)
  · rintro (⟨_, value, hvalue, -⟩ | ⟨value, hvalue, -⟩) <;> exact ⟨value, hvalue⟩
  · rintro ⟨⟨known, value, hvalue, hknown⟩, other, hother, hdeferred⟩
    obtain rfl := Option.some.inj (hvalue.symm.trans hother)
    cases hknown.symm.trans hdeferred

/-! ## Workers that can call -/

/-- A worker that knows the provider id that its step needs calls the provider. -/
theorem Worker.exists_ask {w : Worker} (hcan : w.canCall = true)
    (hcalls : w.step.callsProvider = true) : ∃ request next, w.call = .ask request next := by
  obtain ⟨step, attributes, attempts⟩ := w
  rw [canCall] at hcan
  simp only [call]
  split
  · exact ⟨_, _, rfl⟩
  · exact ⟨_, _, rfl⟩
  · exact ⟨_, _, rfl⟩
  · next haction hid => simp [haction, hid] at hcan
  · next haction hid => simp [haction, hid] at hcan
  · next haction =>
    rw [Step.callsProvider, haction] at hcalls
    cases hcalls

/-- No worker gives up for want of a provider id, if all steps that need one have it. -/
theorem Execution.not_refused {settings : RunSettings} {plan : Plan} {trace : List Event}
    {m : Moment} (run : Execution settings plan trace m)
    (hids : ∀ step ∈ plan.steps, step.action = .delete ∨ step.action = .update →
      ∃ id, step.providerId = some id) (step : Step) : .refused step ∉ trace := by
  intro hmem
  obtain ⟨before, after, rfl⟩ := List.append_of_mem hmem
  obtain ⟨m₁, m₂, hrun, hmove⟩ := run.split
  cases hmove with
  | @refuse c resting others w reply outcome hdone _ =>
    obtain ⟨hplanned, -, hcalls⟩ := hrun.sound.job ⟨w, .resting⟩ List.mem_append_cons_self
    have hcan : w.canCall = true := by
      rw [Worker.canCall]
      split
      · next haction =>
        exact Option.isSome_iff_exists.2 (hids _ (List.mem_of_getElem? hplanned) (.inr haction))
      · next haction =>
        exact Option.isSome_iff_exists.2 (hids _ (List.mem_of_getElem? hplanned) (.inl haction))
      · rfl
      · rfl
    obtain ⟨request, next, hask⟩ := w.exists_ask hcan hcalls
    cases hdone.symm.trans hask

/-! ## Coverage -/

/-- Deletions, and then the steps of the declared nodes, that make up a plan and leave nothing out.
A recorded node that is created is one that is replaced. -/
structure Plan.Covers (g : Graph) (records : Table Record) (plan : Plan)
    (deletions rest : List Step) : Prop where
  steps : plan.steps = deletions ++ rest
  index : ∀ {i : Nat} {step : Step}, plan.steps[i]? = some step → step.index = i
  deletes : ∀ step ∈ deletions, step.action = .delete
  deletesOnce : (deletions.map (·.nodeId)).Nodup
  deleted : ∀ id, id ∈ deletions.map (·.nodeId) ↔ (∃ r, records.get? id = some r) ∧
    (g.contains id = false ∨ ∃ step ∈ rest, step.nodeId = id ∧ step.action = .create)
  spares : ∀ node ∈ g.nodes, node.isExisting = true → node.id ∉ deletions.map (·.nodeId)
  brings : ∀ step ∈ rest, step.action = .create ∨ step.action = .update ∨ step.action = .noop
  order : g.order = .ok (rest.map (·.nodeId))
  everyNode : (rest.map (·.nodeId)).Perm g.ids
  once : (rest.map (·.nodeId)).Nodup
  increasing : ∀ step ∈ rest, step.dependsOn.Pairwise (· < ·)
  waits : ∀ step ∈ rest, ∀ i, i ∈ step.dependsOn ↔ ∃ other, plan.steps[i]? = some other ∧
    ((other.action ≠ .delete ∧ other.nodeId ∈ g.dependencies step.nodeId) ∨
      (other.action = .delete ∧ other.nodeId = step.nodeId))
  everyDependency : ∀ step ∈ rest, ∀ id ∈ g.dependencies step.nodeId, ∃ i ∈ step.dependsOn,
    ∃ other, plan.steps[i]? = some other ∧ other.action ≠ .delete ∧ other.nodeId = id
  parts : ∀ step ∈ rest, ∀ node ∈ g.nodes, node.id = step.nodeId → node.lifecycle = .managed →
    ∀ name, (node.attributes.contains name = true ↔
        step.resolved.contains name = true ∨ step.deferred.contains name = true) ∧
      ¬ (step.resolved.contains name = true ∧ step.deferred.contains name = true)
  recorded : ∀ step ∈ plan.steps, step.action = .delete ∨ step.action = .update →
    ∃ r, records.get? step.nodeId = some r ∧ step.providerId = some r.providerId

namespace Synthesis

variable {g : Graph} {prior : Option State} {plan : Plan} {order : List Node}
  {forced : Table String} {plans : List NodePlan} {deletions : List Step}

/-! ## What a step waits for -/

/-- The nodes that are placed before a step have the indices behind the deletions. -/
theorem Layout.get?_placed (h : Layout g prior plan order forced plans deletions) {i k : Nat}
    {id : String} :
    ((Table.empty : Table Nat).number deletions.length ((plans.take i).map (·.node.id))).get? id =
        some k ↔
      ∃ j q, j < i ∧ plans[j]? = some q ∧ q.node.id = id ∧ deletions.length + j = k := by
  have hplaced : ((plans.take i).map (·.node.id)).Nodup :=
    h.nodup_plans.sublist ((List.take_sublist i plans).map _)
  rw [Table.get?_number_empty hplaced]
  simp only [List.getElem?_map, List.getElem?_take, Option.map_eq_some_iff]
  constructor
  · rintro ⟨j, ⟨q, hq, hid⟩, hk⟩
    split at hq
    · next hlt => exact ⟨j, q, hlt, hq, hid, hk⟩
    · cases hq
  · rintro ⟨j, q, hlt, hq, hid, hk⟩
    exact ⟨j, ⟨q, (if_pos hlt).trans hq, hid⟩, hk⟩

/-- A step behind the deletions is that of a planned node. -/
theorem Layout.of_mem_stepsFor (h : Layout g prior plan order forced plans deletions) {step : Step}
    (hstep : step ∈ stepsFor g (indicesByNode deletions) .empty deletions.length plans) :
    ∃ i p, plans[i]? = some p ∧ plan.steps[deletions.length + i]? = some step ∧
      ∃ placed, step = stepFor g (indicesByNode deletions) placed (deletions.length + i) p := by
  obtain ⟨i, hi⟩ := List.mem_iff_getElem?.1 hstep
  rw [getElem?_stepsFor] at hi
  obtain ⟨p, hp, rfl⟩ := Option.map_eq_some_iff.1 hi
  exact ⟨i, p, hp, h.getElem?_step hp, _, rfl⟩

namespace Origin

/-- A node that is replaced has its deletion under its name. -/
theorem get?_deleted (h : Origin g prior plan order forced plans deletions) {p : NodePlan}
    (hp : p ∈ plans) (hreplace : p.decision = .replace) {k : Nat} :
    (indicesByNode deletions).get? p.node.id = some k ↔
      ∃ deletion, deletions[k]? = some deletion ∧ deletion.nodeId = p.node.id := by
  constructor
  · intro hk
    obtain ⟨-, r, hr⟩ := (h.decided p hp).recorded hreplace
    obtain ⟨deletion, hdeletion, hid⟩ :=
      h.removal.complete hr (Doomed.contains_ofPlans.2 (.inr ⟨p, hp, hreplace, rfl⟩))
    obtain ⟨l, hl⟩ := List.mem_iff_getElem?.1 hdeletion
    have hindex := get?_indicesByNode h.removal.nodup hdeletion
    rw [hid, hk, h.removal.index hl] at hindex
    exact ⟨deletion, Option.some.inj hindex ▸ hl, hid⟩
  · rintro ⟨deletion, hdeletion, hid⟩
    rw [← hid, get?_indicesByNode h.removal.nodup (List.mem_of_getElem? hdeletion),
      h.removal.index hdeletion]

variable {i : Nat} {p : NodePlan} {step : Step}

/-- The step of a node waits for the steps of what the node depends on, and for its deletion. -/
theorem mem_dependsOn (h : Origin g prior plan order forced plans deletions) (hg : g.Linked)
    (hp : plans[i]? = some p) (hstep : plan.steps[deletions.length + i]? = some step) {k : Nat} :
    k ∈ step.dependsOn ↔ ∃ other, plan.steps[k]? = some other ∧
      ((other.action ≠ .delete ∧ other.nodeId ∈ g.dependencies step.nodeId) ∨
        (other.action = .delete ∧ other.nodeId = step.nodeId)) := by
  have hmem := List.mem_of_getElem? hp
  have hown := h.getElem?_step hp
  obtain rfl := Option.some.inj (hown.symm.trans hstep)
  rw [stepFor_nodeId]
  constructor
  · rw [mem_dependsOn_stepFor]
    rintro (⟨id, hid, hk⟩ | ⟨hreplace, hk⟩)
    · obtain ⟨j, q, -, hq, rfl, rfl⟩ := h.get?_placed.1 hk
      refine ⟨_, h.getElem?_step hq, .inl ⟨?_, ?_⟩⟩
      · rw [stepFor_action]
        exact action_ne_delete _
      · rwa [stepFor_nodeId]
    · obtain ⟨deletion, hdeletion, hid⟩ := (h.get?_deleted hmem hreplace).1 hk
      refine ⟨deletion, ?_, .inr ⟨h.removal.action _ (List.mem_of_getElem? hdeletion), hid⟩⟩
      rw [h.steps, List.getElem?_append_left (List.getElem?_eq_some_iff.1 hdeletion).1, hdeletion]
  · rintro ⟨other, hother, ⟨hdelete, hid⟩ | ⟨hdelete, hid⟩⟩
    · have hdeclared := (hg.dependencies p.node (h.perm.mem_iff.1 (h.node_mem hmem))).1 hid
      obtain ⟨j, q, hq, hqid, hwaits⟩ := h.exists_dependency hg hp hdeclared hown
      rwa [h.step_unique hother hdelete hq hqid.symm]
    · rcases h.getElem?_cases hother with hdeletion | ⟨j, q, -, -, rfl⟩
      · have hreplace := h.replace_of_deleted (List.mem_of_getElem? hdeletion) hmem hid
        exact mem_dependsOn_stepFor.2
          (.inr ⟨hreplace, (h.get?_deleted hmem hreplace).2 ⟨other, hdeletion, hid⟩⟩)
      · exact absurd (stepFor_action.symm.trans hdelete) (action_ne_delete _)

/-- What a step waits for is listed once, in order. -/
theorem increasing_dependsOn (h : Origin g prior plan order forced plans deletions)
    (hg : g.Coherent) (hp : plans[i]? = some p)
    (hstep : plan.steps[deletions.length + i]? = some step) :
    step.dependsOn.Pairwise (· < ·) := by
  have hmem := List.mem_of_getElem? hp
  obtain rfl := Option.some.inj ((h.getElem?_step hp).symm.trans hstep)
  rw [stepFor_dependsOn]
  have hplaced : ((g.dependencies p.node.id).filterMap ((Table.empty : Table Nat).number
      deletions.length ((plans.take i).map (·.node.id))).get?).Nodup := by
    refine (hg.nodup_dependencies p.node.id).filterMap fun id other k hid hother => ?_
    obtain ⟨j, q, -, hq, rfl, rfl⟩ := h.get?_placed.1 hid
    obtain ⟨l, q', -, hq', rfl, hl⟩ := h.get?_placed.1 hother
    obtain rfl : l = j := by omega
    rw [Option.some.inj (hq.symm.trans hq')]
  have hdeleted : ((if p.decision = .replace then [p.node.id] else []).filterMap
      (indicesByNode deletions).get?).Nodup := by
    split
    · rw [List.filterMap_cons]
      split <;> simp
    · exact .nil
  refine increasing_sortBy (hplaced.append hdeleted fun k hk hk' => ?_)
  -- The deletions stand before the other steps, so that no index is one of both.
  obtain ⟨id, -, hid⟩ := List.mem_filterMap.1 hk
  obtain ⟨j, q, -, -, -, rfl⟩ := h.get?_placed.1 hid
  split at hk'
  · next hreplace =>
    obtain ⟨own, hown, hindex⟩ := List.mem_filterMap.1 hk'
    obtain rfl := List.mem_singleton.1 hown
    obtain ⟨deletion, hdeletion, -⟩ := (h.get?_deleted hmem hreplace).1 hindex
    have hlt := (List.getElem?_eq_some_iff.1 hdeletion).1
    omega
  · cases hk'

theorem mem_nodeIds_deletions (h : Origin g prior plan order forced plans deletions) {id : String} :
    id ∈ deletions.map (·.nodeId) ↔ (∃ r, (recordsOf prior).get? id = some r) ∧
      (Doomed.ofPlans g (recordsOf prior) plans).contains id = true := by
  rw [List.mem_map]
  constructor
  · rintro ⟨deletion, hdeletion, rfl⟩
    obtain ⟨hdoomed, r, hr, -⟩ := h.removal.record deletion hdeletion
    exact ⟨⟨r, hr⟩, hdoomed⟩
  · rintro ⟨⟨r, hr⟩, hdoomed⟩
    exact h.removal.complete hr hdoomed

/-- The steps behind the deletions are those of the nodes, in their order. -/
theorem nodeIds_stepsFor (h : Origin g prior plan order forced plans deletions)
    (deleted placed : Table Nat) (next : Nat) :
    (stepsFor g deleted placed next plans).map (·.nodeId) = order.map (·.id) := by
  rw [← h.nodes, List.map_map]
  refine List.ext_getElem? fun i => ?_
  rw [List.getElem?_map, getElem?_stepsFor, List.getElem?_map, Option.map_map]
  exact congrArg (plans[i]?.map ·) (funext fun _ => stepFor_nodeId)

/-- A recorded node is replaced if it is created. -/
theorem replace_iff_create (h : Origin g prior plan order forced plans deletions) {p : NodePlan}
    (hp : p ∈ plans) {r : Record} (hr : (recordsOf prior).get? p.node.id = some r) :
    p.decision = .replace ↔ p.decision.action = .create := by
  rw [action_eq_create_iff]
  refine ⟨.inr, fun hcreate => hcreate.resolve_left fun hnew => ?_⟩
  cases ((h.decided p hp).unrecorded hnew).2.symm.trans hr

/-- A plan covers what is declared and what is recorded. -/
theorem covers (h : Origin g prior plan order forced plans deletions) (hg : g.Linked) :
    plan.Covers g (recordsOf prior) deletions
      (stepsFor g (indicesByNode deletions) .empty deletions.length plans) := by
  have hplanned : ∀ {i : Nat} {p : NodePlan}, plans[i]? = some p →
      ∃ step ∈ stepsFor g (indicesByNode deletions) .empty deletions.length plans,
        step.nodeId = p.node.id ∧ step.action = p.decision.action := by
    intro i p hp
    refine ⟨_, List.mem_of_getElem? (getElem?_stepsFor.trans (congrArg _ hp)), ?_, ?_⟩
    · exact stepFor_nodeId
    · exact stepFor_action
  have hids := h.nodeIds_stepsFor (indicesByNode deletions) .empty deletions.length
  constructor
  case steps => exact h.steps
  case index =>
    intro i step hstep
    rcases h.getElem?_cases hstep with hdeletion | ⟨i, p, rfl, -, rfl⟩
    · exact h.removal.index hdeletion
    · exact stepFor_index
  case deletes => exact h.removal.action
  case deletesOnce => exact h.removal.nodup
  case deleted =>
    intro id
    rw [h.mem_nodeIds_deletions, Doomed.contains_ofPlans]
    refine and_congr_right fun ⟨r, hr⟩ => or_congr (and_iff_left ⟨r, hr⟩) ?_
    constructor
    · rintro ⟨p, hp, hreplace, rfl⟩
      obtain ⟨i, hi⟩ := List.mem_iff_getElem?.1 hp
      obtain ⟨step, hstep, hid, haction⟩ := hplanned hi
      exact ⟨step, hstep, hid, haction.trans ((h.replace_iff_create hp hr).1 hreplace)⟩
    · rintro ⟨step, hstep, rfl, hcreate⟩
      obtain ⟨i, p, hp, -, placed, rfl⟩ := h.of_mem_stepsFor hstep
      rw [stepFor_nodeId] at hr ⊢
      rw [stepFor_action] at hcreate
      have hmem := List.mem_of_getElem? hp
      exact ⟨p, hmem, (h.replace_iff_create hmem hr).2 hcreate, rfl⟩
  case spares =>
    rintro node hnode hexisting hdeleted
    obtain ⟨deletion, hdeletion, hid⟩ := List.mem_map.1 hdeleted
    obtain ⟨p, hp, rfl⟩ := h.exists_plan (h.perm.mem_iff.2 hnode)
    have hreplace := h.replace_of_deleted hdeletion hp hid
    have hmanaged := ((h.decided p hp).recorded hreplace).1
    rw [NodePlan.isExisting_eq_false_iff.2 hmanaged] at hexisting
    cases hexisting
  case brings =>
    intro step hstep
    obtain ⟨i, p, -, -, placed, rfl⟩ := h.of_mem_stepsFor hstep
    rw [stepFor_action]
    cases p.decision <;> simp [Decision.action]
  case order =>
    rw [hids]
    exact Graph.order_of_sortedNodes h.sorted
  case everyNode =>
    rw [hids, Graph.ids_eq]
    exact h.perm.map _
  case once =>
    rw [hids]
    exact h.ordered.nodup
  case increasing =>
    intro step hstep
    obtain ⟨i, p, hp, hplaced, -⟩ := h.of_mem_stepsFor hstep
    exact h.increasing_dependsOn hg.coherent hp hplaced
  case waits =>
    intro step hstep k
    obtain ⟨i, p, hp, hplaced, -⟩ := h.of_mem_stepsFor hstep
    exact h.mem_dependsOn hg hp hplaced
  case everyDependency =>
    intro step hstep id hid
    obtain ⟨i, p, hp, hplaced, placed, heq⟩ := h.of_mem_stepsFor hstep
    have hnode := h.perm.mem_iff.1 (h.node_mem (List.mem_of_getElem? hp))
    rw [heq, stepFor_nodeId] at hid
    obtain ⟨j, q, hq, rfl, hwaits⟩ :=
      h.exists_dependency hg hp ((hg.dependencies p.node hnode).1 hid) hplaced
    refine ⟨_, hwaits, _, h.getElem?_step hq, ?_, stepFor_nodeId⟩
    rw [stepFor_action]
    exact action_ne_delete _
  case parts =>
    intro step hstep node hnode hid hmanaged name
    obtain ⟨i, p, hp, -, placed, rfl⟩ := h.of_mem_stepsFor hstep
    have hmem := List.mem_of_getElem? hp
    rw [stepFor_nodeId] at hid
    obtain rfl := hg.node_ext hnode (h.perm.mem_iff.1 (h.node_mem hmem)) hid
    rw [stepFor_resolved, stepFor_deferred]
    exact ((h.decided p hmem).parted hmanaged).contains name
  case recorded => exact fun step hstep haction => h.fits.recorded hstep haction

end Origin

end Synthesis

/-- A plan that is synthesized covers what is declared and what is recorded, each once, and no
worker that carries it out gives up for want of a provider id. -/
theorem Plan.covers_of_synthesize {declarations : List Declaration} {g : Graph}
    {prior : Option State} {now : Instant} {plan : Plan}
    (hg : Graph.ofDeclarations declarations = .ok g)
    (hprior : ∀ s, prior = some s → s.KeysMatch)
    (hplan : Plan.synthesize g prior now = .ok plan) :
    (∃ deletions rest, plan.Covers g (Synthesis.recordsOf prior) deletions rest) ∧
      ∀ {settings : RunSettings} {trace : List Event} {m : Moment},
        Execution settings plan trace m → ∀ step, .refused step ∉ trace := by
  have hlinked := Graph.Linked.ofDeclarations hg
  obtain ⟨order, forced, plans, deletions, horigin⟩ :=
    Synthesis.Origin.exists_of_synthesize hlinked hprior hplan
  refine ⟨⟨deletions, _, horigin.covers hlinked⟩, fun run => run.not_refused ?_⟩
  intro step hstep haction
  obtain ⟨r, -, hid⟩ := horigin.fits.recorded hstep haction
  exact ⟨_, hid⟩

/-- The target group and the listener that waits for it are both replaced: the two deletions come
first, and each creation waits for its own and for those of its dependencies. -/
theorem Plan.covers_of_synthesize_moved :
    ∃ g plan deletions rest, Graph.ofDeclarations Replacement.movedDeclarations = .ok g ∧
      Plan.synthesize g (some Replacement.movedState) ⟨0, 0⟩ = .ok plan ∧
      plan.Covers g Replacement.movedState.resources deletions rest ∧
      plan.steps.map (fun step => (step.nodeId, step.action, step.dependsOn)) =
        [("listener", .delete, []), ("group", .delete, [0]), ("group", .create, [1]),
          ("listener", .create, [0, 2])] := by
  have hsteps : ((Graph.ofDeclarations Replacement.movedDeclarations >>= fun g =>
      Synthesis.steps g (some Replacement.movedState)).toOption.map fun steps =>
        steps.map fun step => (step.nodeId, step.action, step.dependsOn)) =
      some [("listener", .delete, []), ("group", .delete, [0]), ("group", .create, [1]),
        ("listener", .create, [0, 2])] := by
    decide +kernel
  obtain ⟨steps, hok, hlisted⟩ := Option.map_eq_some_iff.1 hsteps
  obtain ⟨g, hg, hok⟩ := bind_eq_ok_iff.1 (toOption_eq_some_iff.1 hok)
  have hkeys : ∀ s, some Replacement.movedState = some s → s.KeysMatch := by
    rintro s ⟨⟩
    decide +kernel
  have hplan : Plan.synthesize g (some Replacement.movedState) ⟨0, 0⟩ =
      .ok { createdAt := ⟨0, 0⟩, configHash := Fingerprint.ofGraph g, steps } :=
    bind_eq_ok_iff.2 ⟨steps, hok, rfl⟩
  obtain ⟨⟨deletions, rest, hcovers⟩, -⟩ := covers_of_synthesize hg hkeys hplan
  exact ⟨g, _, deletions, rest, hg, hplan, hcovers, hlisted⟩

end Converge
