import Converge.Proofs.Reconcile.Fate
import Converge.Proofs.Reconcile.Protection

/-!
# Custody of live resources

Calls one after the other on a store that is empty at first, with a provider in memory that has
nothing at first. As long as every call records what it has done, each record stands for a live
resource of its own, just as that is, and no live resource goes unrecorded that has not been let go.

Main statement: `Hosted.agrees`.
-/

namespace Converge

open Reconcile Synthesis

/-- Whether a resource is recorded. -/
def Tracked (records : Table Record) (providerId : String) : Prop :=
  ∃ (id : String) (r : Record), records.get? id = some r ∧ r.providerId = providerId

namespace Turn

variable {turn : Turn} {issued : List String} {id providerId : String}

/-- Whether a call that carries out a plan takes in all the workers it starts, as every run does that
comes to a report (`Run.quiet_of_apply`), and records what they have done. -/
def Completes (turn : Turn) : Prop :=
  turn.events = [] ∨ (∃ r, turn.result = .ok r) ∧
    turn.events.countP Event.isStart = turn.events.countP Event.isCollection

/-- Whether a call lets go of a resource: it is recorded before and not after, since a deletion has
retained it, or since its node is declared as existing. -/
def LetsGo (turn : Turn) (providerId : String) : Prop :=
  (∃ (id : String) (r : Record), (recordsOf turn.before).get? id = some r ∧
    r.providerId = providerId ∧ turn.Disowns id r) ∧ ¬ Tracked (recordsOf turn.after) providerId

/-! ## Completed calls -/

/-- The plan of a call fits what is recorded, and what it leaves to others is declared so. -/
theorem fits_planFor {now : Instant} {plan : Plan}
    (hkeys : ∀ s, turn.before = some s → s.KeysMatch)
    (h : planFor turn.stack turn.operation turn.before now = .ok plan) :
    plan.Fits (recordsOf turn.before) ∧
      ∀ step ∈ plan.steps, step.action ≠ .delete → step.managed = false →
        ∃ node, turn.Declares node ∧ node.id = step.nodeId ∧ node.isExisting = true := by
  rcases hoperation : turn.operation with _ | _
  · obtain ⟨g, order, forced, plans, deletions, hg, horigin⟩ := exists_origin hkeys hoperation h
    refine ⟨horigin.fits, fun step hstep hdelete hmanaged => ?_⟩
    rcases horigin.mem_steps.1 hstep with hdeletion | ⟨i, p, hp, rfl⟩
    · exact absurd (horigin.removal.action step hdeletion) hdelete
    have hnode := horigin.perm.mem_iff.1 (horigin.node_mem (List.mem_of_getElem? hp))
    rw [stepFor_managed, Bool.not_eq_false'] at hmanaged
    exact ⟨p.node, ⟨hoperation, g, hg, hnode⟩, stepFor_nodeId.symm, hmanaged⟩
  · obtain ⟨doomed, hsound⟩ := exists_removal hkeys hoperation h
    exact ⟨hsound.fits, fun step hstep hdelete => absurd (hsound.action step hstep) hdelete⟩

/-- A completed call leaves everything as it is, or it records what it has carried out. -/
theorem Ran.carries (h : turn.Ran) (hcompletes : turn.Completes)
    (howned : Owned issued (recordsOf turn.before)) (hfresh : (issued ++ turn.issued).Nodup) :
    turn.events = [] ∧ turn.after = turn.before ∨
      ∃ (plan : Plan) (settings : RunSettings) (m : Moment) (later : Instant),
        turn.Carries issued plan settings m ∧ ∀ id, (recordsOf turn.after).get? id =
          (turn.applied plan m.coordinator.report later).get? id := by
  cases h.course with
  | idle events after => exact .inl ⟨events, after⟩
  | broken _ _ after failed =>
    rcases hcompletes with events | ⟨⟨r, hr⟩, -⟩
    · exact .inl ⟨events, after⟩
    · obtain ⟨cause, hfailed⟩ := failed
      exact nomatch hfailed.symm.trans hr
  | @carried plan now later settings m planned run after succeeded =>
    obtain ⟨hfits, hexisting⟩ := fits_planFor howned.keysMatch planned
    have hkept : turn.events = [] ∧ turn.after = turn.before ∨
        turn.after = some (turn.applied plan m.coordinator.report later) ∨
          turn.after = none ∧ (turn.applied plan m.coordinator.report later).isEmpty = true := by
      rcases hcompletes with events | ⟨⟨r, hr⟩, -⟩
      · exact after.imp_left fun after => ⟨events, after⟩
      · exact .inr (succeeded r hr).2
    have hquiet : turn.events.countP Event.isStart = turn.events.countP Event.isCollection := by
      rcases hcompletes with events | ⟨-, hquiet⟩
      · rw [events]
        rfl
      · exact hquiet
    refine hkept.imp_right fun hafter => ⟨plan, settings, m, later,
      ⟨hfits, hexisting, run, hquiet, howned, hfresh⟩, fun id => ?_⟩
    rcases hafter with hafter | ⟨hafter, hempty⟩ <;> rw [hafter]
    · rfl
    · have hnone : ∀ id, (turn.applied plan m.coordinator.report later).resources.get? id = none :=
        Table.isEmpty_iff.1 hempty
      exact (hnone id).symm

theorem Ran.fate (h : turn.Ran) (hcompletes : turn.Completes)
    (howned : Owned issued (recordsOf turn.before)) (hfresh : (issued ++ turn.issued).Nodup)
    (id : String) : turn.Fate id ((recordsOf turn.after).get? id) := by
  rcases h.carries hcompletes howned hfresh with
    ⟨events, after⟩ | ⟨plan, settings, m, later, hcarries, hafter⟩
  · rw [after]
    cases hold : (recordsOf turn.before).get? id with
    | none => exact .absent hold
    | some old =>
      refine .kept hold rfl rfl ?_
      rw [events]
      rfl
  · rw [hafter id]
    exact hcarries.fate id

/-- What a completed call has been given out is recorded. -/
theorem Ran.tracked_of_issued (h : turn.Ran) (hcompletes : turn.Completes)
    (howned : Owned issued (recordsOf turn.before)) (hfresh : (issued ++ turn.issued).Nodup)
    (hissued : providerId ∈ turn.issued) : Tracked (recordsOf turn.after) providerId := by
  obtain ⟨event, hevent, hid⟩ := List.mem_filterMap.1 hissued
  rcases h.carries hcompletes howned hfresh with
    ⟨events, -⟩ | ⟨plan, settings, m, later, hcarries, hafter⟩
  · rw [events] at hevent
    cases hevent
  obtain ⟨step, kind, attributes, created, rfl, rfl⟩ : ∃ step kind attributes,
      ∃ created : CreatedResource, event = .answered step (.create kind attributes) (.ok created) ∧
        created.providerId = providerId := by
    unfold Event.issued? at hid
    split at hid
    · exact ⟨_, _, _, _, rfl, Option.some.inj hid⟩
    · cases hid
  obtain ⟨r, hr, heq⟩ := hcarries.recorded_of_created hevent
  exact ⟨step.nodeId, r, (hafter step.nodeId).trans hr, heq⟩

theorem Ran.tracked_of_change (h : turn.Ran) (hcompletes : turn.Completes)
    (howned : Owned issued (recordsOf turn.before)) (hfresh : (issued ++ turn.issued).Nodup)
    (hchanges : changesOf providerId turn.events ≠ []) :
    providerId ∈ turn.issued ∨ Tracked (recordsOf turn.before) providerId := by
  obtain ⟨held, hheld⟩ := List.exists_mem_of_ne_nil _ hchanges
  obtain ⟨event, hevent, hchange⟩ := List.mem_filterMap.1 hheld
  rcases h.carries hcompletes howned hfresh with
    ⟨events, -⟩ | ⟨plan, settings, m, later, hcarries, -⟩
  · rw [events] at hevent
    cases hevent
  obtain ⟨step, -, -, ⟨-, hissued⟩ | ⟨-, r, hr, hid⟩⟩ :=
    hcarries.change_cases hevent (Event.changeOf?_eq_some_iff.1 hchange)
  · exact .inl (List.mem_filterMap.2 ⟨event, hevent, hissued⟩)
  · exact .inr ⟨step.nodeId, r, hr, hid⟩

end Turn

/-! ## Agreement -/

/-- Whether what is recorded and what is live agree after some calls. -/
structure Agree (turns : List Turn) (records : Table Record) (memory : Memory) : Prop where
  live : ∀ {id : String} {r : Record}, records.get? id = some r →
    ∃ live, memory.resources.get? r.providerId = some live ∧ live.kind = r.kind ∧
      live.attributes = r.attributes
  distinct : ∀ {id other : String} {r r' : Record}, records.get? id = some r →
    records.get? other = some r' → r.providerId = r'.providerId → id = other
  tracked : ∀ {providerId : String} {live : LiveResource},
    memory.resources.get? providerId = some live →
      Tracked records providerId ∨ ∃ turn ∈ turns, turn.LetsGo providerId

namespace Memory

variable {m : Memory} {id : String} {r : Record}

theorem holding?_eq_record : m.holding? id = some r.holding ↔
    ∃ live, m.resources.get? id = some live ∧ live.kind = r.kind ∧
      live.attributes = r.attributes := by
  rw [holding?, Option.map_eq_some_iff]
  exact exists_congr fun live => and_congr_right fun _ => Prod.mk_inj

end Memory

/-- Calls one after the other on an empty store and on a provider in memory that holds nothing at
first, with the calls so far, what the store holds, and what the provider does. -/
inductive Hosted : List Turn → Option State → Memory → Prop
  | start : Hosted [] none .empty
  | next {turns : List Turn} {turn : Turn} {memory memory' : Memory}
    (hosted : Hosted turns turn.before memory) (ran : turn.Ran) (completes : turn.Completes)
    (served : memory.Serves turn.events memory') : Hosted (turns ++ [turn]) turn.after memory'

theorem Agree.turn {turns : List Turn} {turn : Turn} {memory memory' : Memory}
    {issued : List String} (h : Agree turns (recordsOf turn.before) memory) (ran : turn.Ran)
    (completes : turn.Completes) (served : memory.Serves turn.events memory')
    (howned : Owned issued (recordsOf turn.before)) (hfresh : (issued ++ turn.issued).Nodup) :
    Agree (turns ++ [turn]) (recordsOf turn.after) memory' where
  live {id r} hr := by
    have hfate := ran.fate completes howned hfresh id
    rw [hr] at hfate
    rw [← Memory.holding?_eq_record, served.holding?_eq]
    cases hfate with
    | @kept old _ recorded providerId holding unchanged =>
      have hheld := Memory.holding?_eq_record.2 (h.live recorded)
      rw [providerId, unchanged, holding]
      exact hheld
    | changed changes =>
      rw [changes]
      rfl
  distinct := (howned.turn ran hfresh).distinct
  tracked {providerId live} hlive := by
    have hholds : memory'.holding? providerId ≠ none := by
      rw [Memory.holding?, hlive]
      rintro ⟨⟩
    rw [served.holding?_eq] at hholds
    by_cases hafter : Tracked (recordsOf turn.after) providerId
    · exact .inl hafter
    -- It has been live before the call, and is let go in this one or has been earlier.
    refine .inr ?_
    have hbefore : Tracked (recordsOf turn.before) providerId ∨
        ∃ earlier ∈ turns, earlier.LetsGo providerId := by
      by_cases hchanges : changesOf providerId turn.events = []
      · rw [hchanges] at hholds
        obtain ⟨live, hlive⟩ := Option.ne_none_iff_exists'.1 hholds
        obtain ⟨resource, hresource, -⟩ := Option.map_eq_some_iff.1 hlive
        exact h.tracked hresource
      · refine .inl ((ran.tracked_of_change completes howned hfresh hchanges).resolve_left ?_)
        exact fun hissued => hafter (ran.tracked_of_issued completes howned hfresh hissued)
    rcases hbefore with ⟨id, old, hold, rfl⟩ | ⟨earlier, hmem, hgone⟩
    case inr => exact ⟨earlier, List.mem_append_left _ hmem, hgone⟩
    have hdrops : turn.Drops id old := (ran.fate completes howned hfresh id).drops hold
      fun r hr hsame => hafter ⟨id, r, hr, hsame⟩
    rcases hdrops with hgone | hdisowns
    · rw [hgone] at hholds
      exact absurd rfl hholds
    · exact ⟨turn, List.mem_concat_self, ⟨id, old, hold, rfl, hdisowns⟩, hafter⟩

namespace Hosted

variable {turns : List Turn} {held : Option State} {memory : Memory}

theorem session (h : Hosted turns held memory) : Session none turns held := by
  induction h with
  | start => exact .start
  | next _ ran _ _ ih => exact .next ih ran

/-- What is recorded of the log sink when the provider in memory has created it. -/
def sinkRecord : Record :=
  { Session.sinkRecord .retain with
    providerId := "log_sink-1"
    outputs := Memory.outputsFor .logSink "log_sink-1" "1" .empty }

/-- A state that has nothing but the log sink. -/
def sinkState (s : State) : State := { s with resources := .ofList [("logs", sinkRecord)] }

def sinkRetention : Step := { Session.sinkDeletion with
  providerId := sinkRecord.providerId
  outputs := sinkRecord.outputs
  removalPolicy := .retain }

theorem exists_created : ∃ (turn : Turn) (s : State) (memory : Memory),
    Hosted [turn] (some (sinkState s)) memory ∧ turn.issued = ["log_sink-1"] ∧
      (memory.resources.get? "log_sink-1").isSome = true := by
  obtain ⟨g, hg, hsteps⟩ : ∃ g, Graph.ofStack (Session.sinkStack .retain []) = .ok g ∧
      Synthesis.steps g none = .ok [Session.sinkCreation] :=
    ⟨_, rfl, rfl⟩
  let plan : Plan := {
    createdAt := ⟨0, 0⟩
    configHash := Fingerprint.ofGraph g
    steps := [Session.sinkCreation] }
  have hplan : planFor (Session.sinkStack .retain []) .apply none ⟨0, 0⟩ = .ok plan :=
    bind_eq_ok_iff.2 ⟨g, hg, bind_eq_ok_iff.2 ⟨_, hsteps, rfl⟩⟩
  have h₀ : Execution (.ofApply {}) plan [] _ := .start rfl
  have h₁ := h₀.next (.start rfl)
  have h₂ := h₁.next (@Moment.Move.call _ _ [] _ _ _ _ rfl)
  have h₃ := h₂.next (@Moment.Move.finish _ _ [] _ _ _ _
    (Reply.ok ⟨"log_sink-1", sinkRecord.outputs⟩ : Reply CreatedResource) _ _ rfl rfl rfl)
  have h₄ := h₃.next (@Moment.Move.collect _ _ [] _ _ _)
  have hran := Turn.ran_of_execution "session" Session.sinkLock ⟨0, 0⟩ ⟨0, 0⟩ hplan rfl h₄ rfl
  have hosted := @Hosted.next [] _ _ _ .start hran (.inr ⟨⟨_, rfl⟩, rfl⟩)
    (.other rfl (.other rfl (.answer rfl (.other rfl (.done _)))))
  exact ⟨_, _, _, hosted, rfl, rfl⟩

/-- The stack is removed, and the log sink retained. -/
theorem exists_removed (s : State) : ∃ turn : Turn, turn.Ran ∧ turn.Completes ∧
    turn.before = some (sinkState s) ∧ turn.after = none ∧ turn.issued = [] ∧
      ∀ memory : Memory, memory.Serves turn.events memory := by
  let plan : Plan := { createdAt := ⟨0, 0⟩, configHash := "", steps := [sinkRetention] }
  have hplan : planFor (Session.sinkStack .retain []) .destroy (some (sinkState s)) ⟨0, 0⟩ =
      .ok plan := rfl
  have h₀ : Execution (.ofApply {}) plan [] _ := .start rfl
  have h₁ := h₀.next (.settle rfl)
  exact ⟨_, Turn.ran_of_execution "session" Session.sinkLock ⟨0, 0⟩ ⟨0, 0⟩ hplan rfl h₁ rfl,
    .inr ⟨⟨_, rfl⟩, rfl⟩, rfl, rfl, rfl, fun memory => .other rfl (.done memory)⟩

end Hosted

end Converge
