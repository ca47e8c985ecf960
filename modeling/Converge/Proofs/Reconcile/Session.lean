import Converge.Proofs.Execution.Deletion
import Converge.Proofs.Reconcile.Turn
import Converge.Proofs.State.Fold

/-!
# Sessions

Calls on one store, one after the other. A call leaves a record as it was, or brings it up to date
with a declaration, or adds one for a resource that it has created. So if the provider gives out
every id once, no two records share one.

Main statements: `Turn.Ran.source` and `Session.owned`.
-/

namespace Converge

open Reconcile Synthesis

/-- The id that the provider gives out in an event, if it creates a resource. -/
def Event.issued? : Event → Option String
  | .answered _ (.create _ _) (.ok created) => some created.providerId
  | _ => none

/-- Whether a step of a node that leaves its resource in place succeeds in an event. -/
def Event.Refreshes (id : String) : Event → Prop
  | .answered step (.update _ _ _) (.ok _) => step.nodeId = id
  | .settled outcome => outcome.nodeId = id ∧ outcome.action = .noop ∧ outcome.status = .succeeded
  | _ => False

namespace Turn

variable {turn : Turn}

/-- Whether the call is to bring about a declaration that has the node. -/
def Declares (turn : Turn) (node : Node) : Prop :=
  turn.operation = .apply ∧ ∃ g, Graph.ofStack turn.stack = .ok g ∧ node ∈ g.nodes

/-! ## The plan of a call -/

/-- What the steps of a plan are about: deletions are about records, and all others about declared
nodes. -/
structure Plans (turn : Turn) (plan : Plan) : Prop where
  deletes : ∀ step ∈ plan.steps, step.action = .delete →
    ∃ r, (recordsOf turn.before).get? step.nodeId = some r ∧
      step.providerId = some r.providerId ∧ step.kind = r.kind ∧
        step.removalPolicy = r.removalPolicy
  declares : ∀ step ∈ plan.steps, step.action ≠ .delete →
    ∃ node, turn.Declares node ∧ node.id = step.nodeId ∧ node.removalPolicy = step.removalPolicy ∧
      (node.lifecycle = .managed ∨ step.action = .noop ∧ step.managed = false)

theorem exists_origin {now : Instant} {plan : Plan}
    (hkeys : ∀ s, turn.before = some s → s.KeysMatch) (hoperation : turn.operation = .apply)
    (h : planFor turn.stack turn.operation turn.before now = .ok plan) :
    ∃ g order forced plans deletions, Graph.ofStack turn.stack = .ok g ∧
      Origin g turn.before plan order forced plans deletions := by
  rw [hoperation] at h
  obtain ⟨g, hg, hplan⟩ := bind_eq_ok_iff.1 h
  obtain ⟨order, forced, plans, deletions, horigin⟩ :=
    Origin.exists_of_synthesize (Graph.Linked.ofDeclarations hg) hkeys hplan
  exact ⟨g, order, forced, plans, deletions, hg, horigin⟩

theorem exists_removal {now : Instant} {plan : Plan}
    (hkeys : ∀ s, turn.before = some s → s.KeysMatch) (hoperation : turn.operation = .destroy)
    (h : planFor turn.stack turn.operation turn.before now = .ok plan) :
    ∃ doomed, Removal.Sound (recordsOf turn.before) doomed plan.steps := by
  rw [hoperation] at h
  cases hbefore : turn.before with
  | some s =>
    rw [hbefore] at h
    obtain ⟨deletions, hdeletions, heq⟩ := bind_eq_ok_iff.1 h
    obtain rfl := pure_eq_ok_iff.1 heq
    exact ⟨_, Removal.steps_spec (hkeys s hbefore) (mapError_eq_ok_iff.1 hdeletions)⟩
  | none =>
    rw [hbefore] at h
    obtain rfl := Except.ok.inj h
    exact ⟨.empty, .nil⟩

theorem plans {now : Instant} {plan : Plan} (hkeys : ∀ s, turn.before = some s → s.KeysMatch)
    (h : planFor turn.stack turn.operation turn.before now = .ok plan) : turn.Plans plan := by
  rcases hoperation : turn.operation with _ | _
  · obtain ⟨g, order, forced, plans, deletions, hg, horigin⟩ := exists_origin hkeys hoperation h
    refine ⟨fun step hstep hdelete => ?_, fun step hstep hdelete => ?_⟩
    · obtain ⟨-, r, hr, hid, hkind, -, hpolicy⟩ :=
        horigin.removal.record step (horigin.mem_deletions_iff.2 ⟨hstep, hdelete⟩)
      exact ⟨r, hr, hid, hkind, hpolicy⟩
    rcases horigin.mem_steps.1 hstep with hdeletion | ⟨i, p, hp, rfl⟩
    · exact absurd (horigin.removal.action step hdeletion) hdelete
    have hmem := List.mem_of_getElem? hp
    exact ⟨p.node, ⟨hoperation, g, hg, horigin.perm.mem_iff.1 (horigin.node_mem hmem)⟩,
      stepFor_nodeId.symm, stepFor_removalPolicy.symm, horigin.managed_or_noop hmem _ _ _⟩
  · obtain ⟨doomed, hsound⟩ := exists_removal hkeys hoperation h
    refine ⟨fun step hstep _ => ?_, fun step hstep hdelete => ?_⟩
    · obtain ⟨-, r, hr, hid, hkind, -, hpolicy⟩ := hsound.record step hstep
      exact ⟨r, hr, hid, hkind, hpolicy⟩
    · exact absurd (hsound.action step hstep) hdelete

/-! ## What a call does to a record -/

/-- Where a record comes from that there is after a call. -/
inductive Source (turn : Turn) (id : String) (r : Record) : Prop
  | kept {old : Record} (recorded : (recordsOf turn.before).get? id = some old)
    (providerId : r.providerId = old.providerId) (policy : r.removalPolicy = old.removalPolicy)
  | refreshed {old : Record} {node : Node} {event : Event}
    (recorded : (recordsOf turn.before).get? id = some old)
    (providerId : r.providerId = old.providerId) (mem : event ∈ turn.events)
    (refreshes : event.Refreshes id) (declared : turn.Declares node) (nodeId : node.id = id)
    (lifecycle : node.lifecycle = .managed) (policy : r.removalPolicy = node.removalPolicy)
  | created {step : Step} {kind : Kind} {attributes : Attributes} {created : CreatedResource}
    (mem : .answered step (.create kind attributes) (.ok created) ∈ turn.events)
    (nodeId : step.nodeId = id) (providerId : r.providerId = created.providerId)

variable {id : String} {r : Record}

/-- A record stays from where it comes when it is refreshed. -/
theorem Source.refresh {old : Record} {node : Node} {event : Event} (h : turn.Source id old)
    (hproviderId : r.providerId = old.providerId) (hmem : event ∈ turn.events)
    (hrefreshes : event.Refreshes id) (hdeclared : turn.Declares node) (hid : node.id = id)
    (hlifecycle : node.lifecycle = .managed) (hpolicy : r.removalPolicy = node.removalPolicy) :
    turn.Source id r := by
  cases h with
  | kept recorded providerId =>
    exact .refreshed recorded (hproviderId.trans providerId) hmem hrefreshes hdeclared hid
      hlifecycle hpolicy
  | refreshed recorded providerId =>
    exact .refreshed recorded (hproviderId.trans providerId) hmem hrefreshes hdeclared hid
      hlifecycle hpolicy
  | created mem nodeId providerId => exact .created mem nodeId (hproviderId.trans providerId)

theorem source_recordStep {plan : Plan} {s : State} {step : Step} {outcome : Outcome}
    {now : Instant} (hplans : turn.Plans plan) (hstep : step ∈ plan.steps)
    (hlabel : outcome.Of step) (hsucceeded : outcome.status = .succeeded)
    (hattested : outcome.Attested turn.events step)
    (hs : ∀ {id r}, s.get? id = some r → turn.Source id r)
    (hr : (s.recordStep step outcome now).get? id = some r) : turn.Source id r := by
  by_cases hid : step.nodeId = id
  case neg =>
    rw [State.get?_recordStep_of_ne hid] at hr
    exact hs hr
  subst hid
  cases haction : step.action with
  | delete =>
    rw [State.get?_recordStep_delete haction] at hr
    cases hr
  | create =>
    obtain ⟨sequence, hcreated⟩ : ∃ sequence, (s.recordStep step outcome now).get? step.nodeId =
      some { State.createdRecord step outcome now with sequence } :=
        State.get?_recordStep_create haction
    obtain rfl := Option.some.inj (hcreated.symm.trans hr)
    obtain ⟨created, hevent, -, hproviderId⟩ := hattested.of_create haction
    refine .created hevent rfl ?_
    exact congrArg (·.getD "") hproviderId
  | update =>
    rw [State.get?_recordStep_update haction] at hr
    obtain ⟨old, hold, rfl⟩ := Option.map_eq_some_iff.1 hr
    obtain ⟨node, hdeclared, hid, hpolicy, hlifecycle | ⟨hnoop, -⟩⟩ :=
      hplans.declares step hstep (by simp [haction])
    · obtain ⟨providerId, fresh, -, hevent, -⟩ := hattested.of_update haction
      exact (hs hold).refresh rfl hevent rfl hdeclared hid hlifecycle hpolicy.symm
    · exact nomatch haction.symm.trans hnoop
  | noop =>
    rw [State.get?_recordStep_noop haction] at hr
    split at hr
    · next hmanaged =>
      obtain ⟨old, hold, rfl⟩ := Option.map_eq_some_iff.1 hr
      obtain ⟨node, hdeclared, hid, hpolicy, hlifecycle | ⟨-, hunmanaged⟩⟩ :=
        hplans.declares step hstep (by simp [haction])
      · exact (hs hold).refresh rfl (hattested.settled_of_noop haction)
          ⟨hlabel.nodeId, hlabel.action.trans haction, hsucceeded⟩ hdeclared hid hlifecycle
            hpolicy.symm
      · exact nomatch hmanaged.symm.trans hunmanaged
    · cases hr

theorem source_applied {plan : Plan} {settings : RunSettings} {m : Moment} {later : Instant}
    (hplans : turn.Plans plan) (run : Execution settings plan turn.events m)
    (hr : (turn.applied plan m.coordinator.report later).get? id = some r) :
    turn.Source id r := by
  rw [applied, State.get?_applyReport] at hr
  refine State.foldl_recordOutcome (P := fun s => ∀ {id r}, s.get? id = some r → turn.Source id r)
    ?_ ?_ hr
  · intro id r hr
    rw [get?_getD_new] at hr
    exact .kept hr rfl rfl
  · intro outcome houtcome hsucceeded step hstep s hs id r hr
    obtain ⟨k, hk⟩ := List.mem_iff_getElem?.1 houtcome
    rw [run.index_eq hk] at hstep
    exact source_recordStep hplans (List.mem_of_getElem? hstep)
      (run.sound.schedule.label hstep hk) hsucceeded (run.attested.1 hstep hk hsucceeded) hs hr

/-- A call comes to nothing that is not recorded already, or to the state that its plan leaves. -/
theorem Ran.recorded (h : turn.Ran) (hkeys : ∀ s, turn.before = some s → s.KeysMatch) :
    turn.after = turn.before ∨ turn.after = none ∨
      ∃ (plan : Plan) (settings : RunSettings) (m : Moment) (later : Instant), turn.Plans plan ∧
        Execution settings plan turn.events m ∧
        turn.after = some (turn.applied plan m.coordinator.report later) := by
  cases h.course with
  | idle _ after => exact .inl after
  | broken _ _ after => exact .inl after
  | carried planned run after =>
    rcases after with after | after | ⟨after, -⟩
    · exact .inl after
    · exact .inr (.inr ⟨_, _, _, _, plans hkeys planned, run, after⟩)
    · exact .inr (.inl after)

theorem Ran.keysMatch (h : turn.Ran) (hkeys : ∀ s, turn.before = some s → s.KeysMatch) :
    ∀ s, turn.after = some s → s.KeysMatch := by
  intro s hs
  rcases h.recorded hkeys with hafter | hafter | ⟨plan, settings, m, later, -, -, hafter⟩
  · exact hkeys s (hafter.symm.trans hs)
  · exact nomatch hafter.symm.trans hs
  · obtain rfl := Option.some.inj (hafter.symm.trans hs)
    refine State.KeysMatch.applyReport ?_ _ _
    intro id r hr
    rw [get?_getD_new] at hr
    cases hbefore : turn.before with
    | none => simp [hbefore, recordsOf] at hr
    | some s => exact hkeys s hbefore (by rwa [hbefore] at hr)

/-- Every record that there is after a call has been there, or the call has created its
resource. -/
theorem Ran.source (h : turn.Ran) (hkeys : ∀ s, turn.before = some s → s.KeysMatch)
    (hr : (recordsOf turn.after).get? id = some r) : turn.Source id r := by
  rcases h.recorded hkeys with hafter | hafter | ⟨plan, settings, m, later, hplans, run, hafter⟩
  · rw [hafter] at hr
    exact .kept hr rfl rfl
  · rw [hafter, recordsOf] at hr
    exact absurd hr (by simp)
  · rw [hafter] at hr
    exact source_applied hplans run hr

end Turn

/-! ## Sessions -/

/-- Calls one after the other, from what the store holds at first to what it holds in the end. -/
inductive Session (first : Option State) : List Turn → Option State → Prop
  | start : Session first [] first
  | next {turns : List Turn} {turn : Turn} (session : Session first turns turn.before)
    (ran : turn.Ran) : Session first (turns ++ [turn]) turn.after

/-- The ids that the provider gives out in a call. -/
def Turn.issued (turn : Turn) : List String := turn.events.filterMap Event.issued?

/-- The ids that are recorded at first and those that the provider gives out in calls. -/
def issuedIn (first : Option State) (turns : List Turn) : List String :=
  (recordsOf first).values.map (·.providerId) ++ turns.flatMap Turn.issued

theorem issuedIn_concat {first : Option State} {turns : List Turn} {turn : Turn} :
    issuedIn first (turns ++ [turn]) = issuedIn first turns ++ turn.issued := by
  simp [issuedIn]

/-- Whether records stand under their own ids, and share none of the ids that were given out. -/
structure Owned (issued : List String) (records : Table Record) : Prop where
  keys : ∀ {id : String} {r : Record}, records.get? id = some r → r.id = id
  issued : ∀ {id : String} {r : Record}, records.get? id = some r → r.providerId ∈ issued
  distinct : ∀ {id other : String} {r r' : Record}, records.get? id = some r →
    records.get? other = some r' → r.providerId = r'.providerId → id = other

theorem eq_of_nodup_filterMap {α β : Type} {f : α → Option β} {l : List α}
    (h : (l.filterMap f).Nodup) {a b : α} (ha : a ∈ l) (hb : b ∈ l) {x : β} (hfa : f a = some x)
    (hfb : f b = some x) : a = b := by
  induction l with
  | nil => cases ha
  | cons y l ih =>
    rcases List.mem_cons.1 ha with rfl | ha' <;> rcases List.mem_cons.1 hb with rfl | hb'
    · rfl
    · rw [List.filterMap_cons_some hfa, List.nodup_cons] at h
      exact absurd (List.mem_filterMap.2 ⟨b, hb', hfb⟩) h.1
    · rw [List.filterMap_cons_some hfb, List.nodup_cons] at h
      exact absurd (List.mem_filterMap.2 ⟨a, ha', hfa⟩) h.1
    · exact ih (h.sublist ((List.sublist_cons_self y l).filterMap f)) ha' hb'

namespace Owned

variable {first : Option State} {issued : List String}

theorem keysMatch {held : Option State} (h : Owned issued (recordsOf held)) :
    ∀ s, held = some s → s.KeysMatch := by
  rintro s rfl id r hr
  exact h.keys hr

theorem of_first (hkeys : ∀ s, first = some s → s.KeysMatch)
    (hfresh : ((recordsOf first).values.map (·.providerId)).Nodup) :
    Owned ((recordsOf first).values.map (·.providerId)) (recordsOf first) := by
  refine ⟨fun {id r} hr => ?_, fun {id r} hr => ?_, fun {id other r r'} hr hr' heq => ?_⟩
  · cases first with
    | none => simp [recordsOf] at hr
    | some s => exact hkeys s rfl hr
  · exact List.mem_map_of_mem (Table.mem_values.2 ⟨id, hr⟩)
  · rw [Table.values, List.map_map] at hfresh
    exact congrArg (·.1) (List.inj_on_of_nodup_map hfresh (Table.mem_entries.2 hr)
      (Table.mem_entries.2 hr') heq)

/-- A call keeps records apart from each other if what it is given out is new. -/
theorem turn {turn : Turn} (h : Owned issued (recordsOf turn.before)) (ran : turn.Ran)
    (hfresh : (issued ++ turn.issued).Nodup) :
    Owned (issued ++ turn.issued) (recordsOf turn.after) := by
  have hdisjoint := (List.nodup_append.1 hfresh).2.2
  have hsource : ∀ {id : String} {r : Record}, (recordsOf turn.after).get? id = some r →
      turn.Source id r := fun hr => ran.source h.keysMatch hr
  -- A record has been there with its id, or this has just been given out.
  have hcases : ∀ {id : String} {r : Record}, (recordsOf turn.after).get? id = some r →
      (∃ old, (recordsOf turn.before).get? id = some old ∧ r.providerId = old.providerId) ∨
        ∃ step kind attributes, ∃ created : CreatedResource,
          .answered step (.create kind attributes) (.ok created) ∈ turn.events ∧
            step.nodeId = id ∧ r.providerId = created.providerId := by
    intro id r hr
    cases hsource hr with
    | kept recorded providerId => exact .inl ⟨_, recorded, providerId⟩
    | refreshed recorded providerId => exact .inl ⟨_, recorded, providerId⟩
    | created mem nodeId providerId => exact .inr ⟨_, _, _, _, mem, nodeId, providerId⟩
  have hissued : ∀ {step kind attributes} {created : CreatedResource},
      Event.answered step (.create kind attributes) (.ok created) ∈ turn.events →
        created.providerId ∈ turn.issued :=
    fun hmem => List.mem_filterMap.2 ⟨_, hmem, rfl⟩
  refine ⟨fun {id r} hr => ?_, fun {id r} hr => ?_, fun {id other r r'} hr hr' heq => ?_⟩
  · have hkeys := ran.keysMatch h.keysMatch
    cases hafter : turn.after with
    | none => simp [hafter, recordsOf] at hr
    | some s => exact hkeys s hafter (by rwa [hafter] at hr)
  · rcases hcases hr with ⟨old, hold, hid⟩ | ⟨step, kind, attributes, created, hmem, -, hid⟩
    · exact List.mem_append_left _ (hid ▸ h.issued hold)
    · exact List.mem_append_right _ (hid ▸ hissued hmem)
  · rcases hcases hr with ⟨old, hold, hid⟩ | ⟨step, kind, attributes, created, hmem, hnode, hid⟩ <;>
      rcases hcases hr' with
        ⟨old', hold', hid'⟩ | ⟨step', kind', attributes', created', hmem', hnode', hid'⟩
    · exact h.distinct hold hold' (hid.symm.trans (heq.trans hid'))
    · exact absurd (hid.symm.trans (heq.trans hid'))
        (hdisjoint _ (h.issued hold) _ (hissued hmem'))
    · exact absurd (hid'.symm.trans (heq.symm.trans hid))
        (hdisjoint _ (h.issued hold') _ (hissued hmem))
    · -- The same id is given out twice only if both records come from one answer.
      have hevents := eq_of_nodup_filterMap (List.nodup_append.1 hfresh).2.1 hmem hmem' rfl
        (congrArg some (hid'.symm.trans (heq.symm.trans hid)))
      obtain ⟨rfl, -⟩ := Event.answered.inj hevents
      exact hnode.symm.trans hnode'

end Owned

namespace Session

variable {first held : Option State} {turns : List Turn}

theorem concat_iff {turn : Turn} :
    Session first (turns ++ [turn]) held ↔
      Session first turns turn.before ∧ turn.Ran ∧ held = turn.after := by
  constructor
  · intro h
    generalize hturns : turns ++ [turn] = all at h
    cases h with
    | start => simp at hturns
    | next session ran =>
      obtain ⟨rfl, heq⟩ := List.append_inj' hturns rfl
      obtain rfl := (List.cons.inj heq).1
      exact ⟨session, ran, rfl⟩
  · rintro ⟨session, ran, rfl⟩
    exact .next session ran

/-- What holds of the state at first and is kept by every call holds in the end. -/
theorem induction {P : Option State → Prop} (h : Session first turns held)
    (hkeys : ∀ s, first = some s → s.KeysMatch) (hstart : P first)
    (hstep : ∀ turn : Turn, turn.Ran → (∀ s, turn.before = some s → s.KeysMatch) →
      P turn.before → P turn.after) : (∀ s, held = some s → s.KeysMatch) ∧ P held := by
  induction h with
  | start => exact ⟨hkeys, hstart⟩
  | next _ ran ih => exact ⟨ran.keysMatch ih.1, hstep _ ran ih.1 ih.2⟩

theorem owned (h : Session first turns held) (hkeys : ∀ s, first = some s → s.KeysMatch)
    (hfresh : (issuedIn first turns).Nodup) :
    Owned (issuedIn first turns) (recordsOf held) := by
  induction h with
  | start =>
    rw [issuedIn, List.flatMap_nil, List.append_nil] at hfresh ⊢
    exact .of_first hkeys hfresh
  | @next turns turn _ ran ih =>
    rw [issuedIn_concat] at hfresh ⊢
    exact (ih (List.nodup_append.1 hfresh).1).turn ran hfresh

end Session

end Converge
