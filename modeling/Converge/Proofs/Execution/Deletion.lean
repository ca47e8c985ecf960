import Converge.Proofs.Execution.Soundness
import Converge.Proofs.Plan.Synthesis

/-!
# Safe deletion

A live resource is deleted only after everything that was recorded as depending on it is gone. It
takes three things: a plan deletes the dependents of what it deletes, a deletion waits for theirs,
and no step starts before what it waits for has succeeded.

Main statement: `Removal.dependents_gone`.
-/

namespace Converge

namespace Execution

variable {settings : RunSettings} {plan : Plan} {before after : List Event} {m : Moment}
  {step : Step} {request : Provider.Request}

/-- When a step calls the provider, all that it waits for has succeeded. -/
theorem attested_of_called
    (h : Execution settings plan (before ++ .called step request :: after) m) :
    plan.steps[step.index]? = some step ∧ step.callsProvider = true ∧
      (∃ w next, Worker.step w = step ∧ w.call = .ask request next) ∧
      ∀ i ∈ step.dependsOn, ∃ earlier outcome, plan.steps[i]? = some earlier ∧
        Outcome.Of earlier outcome ∧ outcome.status = .succeeded ∧
        outcome.Attested before earlier := by
  obtain ⟨m₁, m₂, hbefore, hmove⟩ := h.split
  have hsound := hbefore.sound
  cases hmove with
  | @call c resting others w _ next hcall =>
    obtain ⟨hplanned, hstatus, hcalls⟩ := hsound.job ⟨w, .resting⟩ List.mem_append_cons_self
    refine ⟨hplanned, hcalls, ⟨w, next, rfl, hcall⟩, fun i hi => ?_⟩
    have hsucceeded := hsound.schedule.begun hplanned (.inl hstatus) i hi
    obtain ⟨outcome, houtcome, hdone⟩ := Schedule.statusAt?_eq_some_iff.1 hsucceeded
    have hlt : i < plan.steps.length := by
      rw [← hsound.schedule.length]
      exact (List.getElem?_eq_some_iff.1 houtcome).1
    have hearlier : plan.steps[i]? = some plan.steps[i] := List.getElem?_eq_getElem hlt
    exact ⟨_, outcome, hearlier, hsound.schedule.label hearlier houtcome, hdone,
      hbefore.attested.1 hearlier houtcome hdone⟩

end Execution

theorem Worker.call_delete {w : Worker} {kind : Kind} {id : String}
    {next : Reply Unit → Program Provider.calls (Reply (Option String × Outputs))}
    (h : w.call = .ask (.delete kind id) next) :
    w.step.action = .delete ∧ w.step.providerId = some id ∧ w.step.kind = kind := by
  cases w.asks h with
  | delete action recorded => exact ⟨action, recorded, rfl⟩

theorem Step.callsProvider_of_delete {step : Step} (h : step.action = .delete) :
    step.callsProvider = true ↔ step.removalPolicy = .destroy := by
  rw [callsProvider, isRetainedDelete, h]
  cases step.removalPolicy <;> decide

namespace Removal

/-- A plan for what was recorded, and the nodes that are declared as existing: one that brings about
a graph, or the one that removes everything. -/
inductive Planned : Table Record → Plan → Set String → Prop
  | stack {declarations : List Declaration} {g : Graph} {prior : Option State} {now : Instant}
    {plan : Plan} (graph : Graph.ofDeclarations declarations = .ok g)
    (keys : ∀ s, prior = some s → s.KeysMatch)
    (synthesized : Plan.synthesize g prior now = .ok plan) :
    Planned (Synthesis.recordsOf prior) plan
      {id | ∃ node ∈ g.nodes, node.id = id ∧ node.isExisting = true}
  | everything {s : State} {now : Instant} {plan : Plan} (keys : s.KeysMatch)
    (synthesized : Plan.synthesizeDestroy s now = .ok plan) : Planned s.resources plan ∅

variable {records : Table Record} {plan : Plan} {existing : Set String}

/-- How the deletions of a plan respect what was recorded. -/
structure Respects (records : Table Record) (plan : Plan) (existing : Set String) : Prop where
  record : ∀ step ∈ plan.steps, step.action = .delete →
    ∃ r, records.get? step.nodeId = some r ∧ step.providerId = some r.providerId ∧
      step.kind = r.kind ∧ step.removalPolicy = r.removalPolicy
  waits : ∀ step ∈ plan.steps, step.action = .delete → step.removalPolicy = .destroy →
    ∀ {id : String} {r : Record}, records.get? id = some r → step.nodeId ∈ r.dependencies →
      id ∉ existing → ∃ i ∈ step.dependsOn, ∃ other, plan.steps[i]? = some other ∧
        other.nodeId = id ∧ other.action = .delete

/-- Deletions respect what was recorded if what was recorded as depending on a doomed resource is
doomed as well. -/
theorem Sound.respects {doomed : Doomed} {deletions rest : List Step}
    (h : Sound records doomed deletions) (hplan : plan.steps = deletions ++ rest)
    (hrest : ∀ step ∈ rest, step.action ≠ .delete)
    (hclosed : ∀ {id dependency : String} {r rd : Record}, records.get? id = some r →
      dependency ∈ r.dependencies → records.get? dependency = some rd →
      rd.removalPolicy = .destroy → doomed.contains dependency = true → id ∉ existing →
      doomed.contains id = true) : Respects records plan existing := by
  have hmem : ∀ step ∈ plan.steps, step.action = .delete → step ∈ deletions := by
    intro step hstep hdelete
    rw [hplan, List.mem_append] at hstep
    exact hstep.resolve_right fun hstep => hrest step hstep hdelete
  refine ⟨fun step hstep hdelete => ?_, ?_⟩
  · obtain ⟨-, r, hr, hid, hkind, -, hpolicy⟩ := h.record step (hmem step hstep hdelete)
    exact ⟨r, hr, hid, hkind, hpolicy⟩
  · intro step hstep hdelete hdestroy id r hr hdependency howned
    obtain ⟨hdoomed, rd, hrd, -, -, -, hpolicy⟩ := h.record step (hmem step hstep hdelete)
    obtain ⟨other, hother, hid⟩ := h.complete hr
      (hclosed hr hdependency hrd (hpolicy ▸ hdestroy) hdoomed howned)
    obtain ⟨i, hi⟩ := List.mem_iff_getElem?.1 hother
    have hdependencies : other.dependencies = r.dependencies := by
      obtain ⟨-, r', hr', -, -, hdependencies, -⟩ := h.record other hother
      rw [hid, hr] at hr'
      rw [hdependencies, Option.some.inj hr']
    have hwait := h.waits step (hmem step hstep hdelete) other hother
      (hdependencies ▸ hdependency)
    refine ⟨i, h.index hi ▸ hwait, other, ?_, hid, h.action other hother⟩
    rw [hplan, List.getElem?_append_left (List.getElem?_eq_some_iff.1 hi).1, hi]

theorem Planned.respects (h : Planned records plan existing) : Respects records plan existing := by
  cases h with
  | stack graph keys synthesized =>
    have hlinked := Graph.Linked.ofDeclarations graph
    obtain ⟨order, forced, plans, deletions, horigin⟩ :=
      Synthesis.Origin.exists_of_synthesize hlinked keys synthesized
    refine horigin.removal.respects horigin.steps ?_ ?_
    · intro step hstep
      obtain ⟨i, hi⟩ := List.mem_iff_getElem?.1 hstep
      rw [Synthesis.getElem?_stepsFor] at hi
      obtain ⟨p, -, rfl⟩ := Option.map_eq_some_iff.1 hi
      rw [Synthesis.stepFor_action]
      exact Synthesis.Origin.action_ne_delete _
    · intro id dependency r rd hr hdependency hrd hdestroy hdoomed howned
      refine horigin.doomed_of_dependency hlinked.coherent keys hr hdependency hrd hdestroy hdoomed
        fun node hnode hid => ?_
      refine NodePlan.isExisting_eq_false_iff.1 (Bool.eq_false_iff.2 fun hexisting => ?_)
      exact howned ⟨node, hnode, hid, hexisting⟩
  | everything keys synthesized =>
    obtain ⟨deletions, hdeletions, heq⟩ := bind_eq_ok_iff.1 synthesized
    obtain rfl := pure_eq_ok_iff.1 heq
    refine (steps_spec keys (mapError_eq_ok_iff.1 hdeletions)).respects
      (List.append_nil deletions).symm (by simp) ?_
    intro id dependency r rd hr hdependency hrd hdestroy hdoomed howned
    rw [Doomed.everything, Table.contains, Table.get?_map, hr]
    rfl

/-- When a live resource is deleted, everything that was recorded as depending on it, but for what
is declared as existing, has been deleted in the same run, or was found gone, or has been
forgotten if it was to be retained. -/
theorem dependents_gone {settings : RunSettings} {before after : List Event} {m : Moment}
    {step : Step} {kind : Kind} {providerId : String} (hplan : Planned records plan existing)
    (run : Execution settings plan (before ++ .called step (.delete kind providerId) :: after) m) :
    ∃ deleted, records.get? step.nodeId = some deleted ∧ deleted.providerId = providerId ∧
      deleted.kind = kind ∧
      ∀ id r, records.get? id = some r → step.nodeId ∈ r.dependencies → id ∉ existing →
        ∃ other ∈ plan.steps, other.nodeId = id ∧ other.action = .delete ∧
          ((∃ reply : Reply Unit, reply.Gone ∧
              .answered other (.delete r.kind r.providerId) reply ∈ before) ∨
            (r.removalPolicy = .retain ∧ ∃ outcome, outcome.Of other ∧
              outcome.status = .succeeded ∧ .settled outcome ∈ before)) := by
  have hrespects := hplan.respects
  obtain ⟨hplanned, hcalls, ⟨w, next, rfl, hcall⟩, hdone⟩ := run.attested_of_called
  obtain ⟨hdelete, hid, rfl⟩ := Worker.call_delete hcall
  have hmem := List.mem_of_getElem? hplanned
  obtain ⟨deleted, hdeleted, hid', hkind, -⟩ := hrespects.record _ hmem hdelete
  refine ⟨deleted, hdeleted, Option.some.inj (hid'.symm.trans hid), hkind.symm, ?_⟩
  intro id r hr hdependency howned
  obtain ⟨i, hi, other, hother, rfl, hgoes⟩ := hrespects.waits _ hmem hdelete
    ((Step.callsProvider_of_delete hdelete).1 hcalls) hr hdependency howned
  obtain ⟨earlier, outcome, hearlier, hlabel, hsucceeded, hattested⟩ := hdone i hi
  obtain rfl := Option.some.inj (hother.symm.trans hearlier)
  refine ⟨other, List.mem_of_getElem? hother, rfl, hgoes, ?_⟩
  obtain ⟨r', hr', hotherId, hotherKind, hpolicy⟩ :=
    hrespects.record other (List.mem_of_getElem? hother) hgoes
  obtain rfl := Option.some.inj (hr.symm.trans hr')
  cases hattested with
  | settled event calls outputs providerId =>
    refine .inr ⟨?_, outcome, hlabel, hsucceeded, event⟩
    cases hretained : other.removalPolicy with
    | retain => rw [← hpolicy, hretained]
    | destroy => exact nomatch calls.symm.trans ((Step.callsProvider_of_delete hgoes).2 hretained)
  | created action => exact nomatch hgoes.symm.trans action
  | updated action => exact nomatch hgoes.symm.trans action
  | deleted action recorded event gone =>
    obtain rfl := Option.some.inj (recorded.symm.trans hotherId)
    exact .inl ⟨_, gone, hotherKind ▸ event⟩

/-- A target group, and a listener that was recorded as depending on it. -/
def attachedState : State :=
  { State.new "shop" "test" ⟨0, 0⟩ with
    resources := .ofList [
      ("group", Record.new "group" .targetGroup "tg-1" ⟨0, 0⟩),
      ("listener", { Record.new "listener" .listener "li-1" ⟨0, 0⟩ with
        dependencies := ["group"], sequence := 1 })] }

def listenerDeletion : Step where
  index := 0
  nodeId := "listener"
  kind := .listener
  action := .delete
  providerId := some "li-1"
  reason := "stack destroyed"
  dependencies := ["group"]

def groupDeletion : Step where
  index := 1
  nodeId := "group"
  kind := .targetGroup
  action := .delete
  dependsOn := [0]
  providerId := some "tg-1"
  reason := "stack destroyed"

/-- The plan that removes both. -/
def attachedRemoval : Plan :=
  { createdAt := ⟨0, 0⟩, configHash := "", steps := [listenerDeletion, groupDeletion] }

/-- The deletion of a target group that nothing depends on. -/
def loneDeletion : Step := { groupDeletion with index := 0, dependsOn := [] }

/-- The plan that removes it. -/
def loneRemoval : Plan := { createdAt := ⟨0, 0⟩, configHash := "", steps := [loneDeletion] }

/-- Two workers, and one attempt for every step. -/
def plainSettings : RunSettings where
  concurrency := 2
  retry := { maxAttempts := 1, initialMs := 0, maxMs := 0, jitter := .ofNat 0 }

/-- The target group is deleted after the listener. -/
theorem dependents_gone_attached :
    Planned attachedState.resources attachedRemoval ∅ ∧
      ∃ before m, Execution plainSettings attachedRemoval
        (before ++ .called groupDeletion (.delete .targetGroup "tg-1") :: []) m ∧
        ∃ other ∈ attachedRemoval.steps, ∃ reply : Reply Unit, reply.Gone ∧
          .answered other (.delete .listener "li-1") reply ∈ before := by
  have hplan : Planned attachedState.resources attachedRemoval ∅ :=
    .everything (by decide +kernel) (rfl : Plan.synthesizeDestroy _ ⟨0, 0⟩ = _)
  have h₀ : Execution plainSettings attachedRemoval [] _ := .start rfl
  have h₁ := h₀.next (.start rfl)
  have h₂ := h₁.next (@Moment.Move.call _ _ [] _ _ _ _ rfl)
  have h₃ := h₂.next (@Moment.Move.finish _ _ [] _ _ _ _ (Reply.ok () : Reply Unit) _ _ rfl rfl rfl)
  have h₄ := h₃.next (@Moment.Move.collect _ _ [] _ _ _)
  have h₅ := h₄.next (.start rfl)
  have h₆ := h₅.next (@Moment.Move.call _ _ [] _ _ _ _ rfl)
  obtain ⟨-, -, -, -, hgone⟩ := dependents_gone hplan h₆
  obtain ⟨other, hother, -, -, ⟨reply, hreply, hevent⟩ | ⟨hretain, -⟩⟩ :=
    hgone "listener" _ rfl (by decide) (fun h => h)
  · exact ⟨hplan, _, _, h₆, other, hother, reply, hreply, hevent⟩
  · cases hretain

end Removal

end Converge
