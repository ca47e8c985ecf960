import Converge.Proofs.Reconcile.Session
import Converge.Proofs.Reflection

/-!
# Protected resources

What is declared as existing, or to be retained, is not deleted in any later call. It is protected
by what is recorded: the record is dropped, or keeps the resource from deletion, until a step of
the same node has succeeded under a declaration that does not.

Main statement: `Session.not_deleted`.
-/

namespace Converge

open Reconcile Synthesis

/-- Whether nothing but the record of a node has a provider id, and that retains the resource. -/
def Guarded (node providerId : String) (records : Table Record) : Prop :=
  ∀ {id : String} {r : Record}, records.get? id = some r → r.providerId = providerId →
    id = node ∧ r.removalPolicy = .retain

namespace Turn

variable {turn : Turn} {id providerId : String} {issued : List String}

/-- Whether the call succeeds. -/
def Succeeds (turn : Turn) : Prop := ∃ r, turn.result = .ok r ∧ r.success = true

/-- Whether the call succeeds in carrying out a plan, so that it has not found everything done. -/
def CarriesOut (turn : Turn) : Prop :=
  ∃ r, turn.result = .ok r ∧ r.success = true ∧ r.report ≠ none

/-- Whether the call is to bring about that a node is existing, or retained. -/
def Retains (turn : Turn) (id : String) : Prop :=
  ∃ node, turn.Declares node ∧ node.id = id ∧
    (node.isExisting = true ∨ node.removalPolicy = .retain)

/-- Whether the call brings about that a node is managed and not retained: it succeeds as a whole, or
a step does that leaves the resource of the node in place. -/
def Releases (turn : Turn) (id : String) : Prop :=
  (∃ node, turn.Declares node ∧ node.id = id ∧ node.lifecycle = .managed ∧
    node.removalPolicy = .destroy) ∧
  (turn.Succeeds ∨ ∃ event ∈ turn.events, event.Refreshes id)

theorem Ran.not_called (h : turn.Ran) (hkeys : ∀ s, turn.before = some s → s.KeysMatch)
    (hguarded : Guarded id providerId (recordsOf turn.before)) (step : Step) (kind : Kind) :
    .called step (.delete kind providerId) ∉ turn.events := by
  intro hcalled
  rcases h.exists_execution with hevents | ⟨plan, now, planned, settings, m, run⟩
  · rw [hevents] at hcalled
    cases hcalled
  · obtain ⟨before, after, hevents⟩ := List.append_of_mem hcalled
    rw [hevents] at run
    obtain ⟨hplanned, hcalls, ⟨w, next, rfl, hcall⟩, -⟩ := run.attested_of_called
    obtain ⟨hdelete, hid, -⟩ := Worker.call_delete hcall
    obtain ⟨r, hr, hrecorded, -, hpolicy⟩ :=
      (plans hkeys planned).deletes _ (List.mem_of_getElem? hplanned) hdelete
    have hdestroy := (Step.callsProvider_of_delete hdelete).1 hcalls
    have hretain := (hguarded hr (Option.some.inj (hrecorded.symm.trans hid))).2
    exact nomatch hdestroy.symm.trans (hpolicy.trans hretain)

theorem Ran.guarded (h : turn.Ran) (howned : Owned issued (recordsOf turn.before))
    (hfresh : (issued ++ turn.issued).Nodup) (hissued : providerId ∈ issued)
    (hguarded : Guarded id providerId (recordsOf turn.before)) (hreleases : ¬ turn.Releases id) :
    Guarded id providerId (recordsOf turn.after) := by
  intro other r hr hproviderId
  cases h.source howned.keysMatch hr with
  | kept recorded same policy =>
    obtain ⟨rfl, hretain⟩ := hguarded recorded (same.symm.trans hproviderId)
    exact ⟨rfl, policy.trans hretain⟩
  | @refreshed old node event recorded same mem refreshes declared nodeId lifecycle policy =>
    obtain ⟨rfl, -⟩ := hguarded recorded (same.symm.trans hproviderId)
    refine ⟨rfl, ?_⟩
    cases hpolicy : node.removalPolicy with
    | retain => exact policy.trans hpolicy
    | destroy =>
      exact absurd ⟨⟨node, declared, nodeId, lifecycle, hpolicy⟩, .inr ⟨event, mem, refreshes⟩⟩
        hreleases
  | created mem nodeId same =>
    -- What is given out in this call is new, so that it cannot be what is guarded.
    have hmem : providerId ∈ turn.issued :=
      List.mem_filterMap.2 ⟨_, mem, congrArg some (same.symm.trans hproviderId)⟩
    exact absurd rfl ((List.nodup_append.1 hfresh).2.2 _ hissued _ hmem)

/-- After a call that succeeds in carrying out a plan, what is recorded of a declared node is that it
is managed, with the removal policy that is declared. -/
theorem Ran.record_of_carriesOut (h : turn.Ran) (hkeys : ∀ s, turn.before = some s → s.KeysMatch)
    (hdone : turn.CarriesOut) {node : Node} (hdeclared : turn.Declares node) {r : Record}
    (hr : (recordsOf turn.after).get? node.id = some r) :
    node.lifecycle = .managed ∧ r.removalPolicy = node.removalPolicy := by
  obtain ⟨result, hresult, hsuccess, hreport⟩ := hdone
  obtain ⟨hoperation, g, hg, hnode⟩ := hdeclared
  cases h.course with
  | idle _ _ none => exact absurd (none result hresult).1 hreport
  | broken _ _ _ failed =>
    obtain ⟨cause, hfailed⟩ := failed
    rw [hfailed] at hresult
    cases hresult
  | @carried plan now later settings m planned run _ succeeded =>
    obtain ⟨rfl, hafter | ⟨hafter, -⟩⟩ := succeeded result hresult
    case inr =>
      rw [hafter, recordsOf] at hr
      exact absurd hr (by simp)
    obtain ⟨g', order, forced, plans, deletions, hg', horigin⟩ :=
      exists_origin hkeys hoperation planned
    obtain rfl := Except.ok.inj (hg.symm.trans hg')
    obtain ⟨i, p, hp, rfl, hmem⟩ := horigin.carriedOut_of_declared run hsuccess hnode
    rw [hafter] at hr
    obtain ⟨hmanaged, hreflects⟩ :=
      horigin.reflects_of_recorded run (fun _ => get?_getD_new) hp hmem hr
    exact ⟨hmanaged, hreflects.removalPolicy⟩

/-- A call that succeeds in bringing about that a node is existing, or retained, guards the resource
that is recorded for it. -/
theorem Ran.guarded_of_carriesOut (h : turn.Ran) (howned : Owned issued (recordsOf turn.before))
    (hfresh : (issued ++ turn.issued).Nodup) (hdone : turn.CarriesOut) (hretains : turn.Retains id)
    {r : Record} (hr : (recordsOf turn.before).get? id = some r ∨
      (recordsOf turn.after).get? id = some r) :
    Guarded id r.providerId (recordsOf turn.after) := by
  obtain ⟨node, hdeclared, rfl, hkept⟩ := hretains
  intro other held hheld hproviderId
  -- The id is recorded for the node alone, whether it was before the call or is after it.
  obtain rfl : other = node.id := by
    rcases hr with hr | hr
    · cases h.source howned.keysMatch hheld with
      | kept recorded same => exact howned.distinct recorded hr (same.symm.trans hproviderId)
      | refreshed recorded same => exact howned.distinct recorded hr (same.symm.trans hproviderId)
      | created mem nodeId same =>
        have hmem : r.providerId ∈ turn.issued :=
          List.mem_filterMap.2 ⟨_, mem, congrArg some (same.symm.trans hproviderId)⟩
        exact absurd rfl ((List.nodup_append.1 hfresh).2.2 _ (howned.issued hr) _ hmem)
    · exact (howned.turn h hfresh).distinct hheld hr hproviderId
  obtain ⟨hmanaged, hpolicy⟩ := h.record_of_carriesOut howned.keysMatch hdone hdeclared hheld
  rcases hkept with hexisting | hretain
  · exact nomatch (NodePlan.isExisting_eq_false_iff.2 hmanaged).symm.trans hexisting
  · exact ⟨rfl, hpolicy.trans hretain⟩

end Turn

namespace Session

variable {first held : Option State} {id : String}

/-- The resource of a node stays guarded until the node is released. -/
theorem guarded {earlier between : List Turn} {applied : Turn} {r : Record}
    (session : Session first (earlier ++ applied :: between) held)
    (hkeys : ∀ s, first = some s → s.KeysMatch)
    (hfresh : (issuedIn first (earlier ++ applied :: between)).Nodup)
    (hdone : applied.CarriesOut) (hretains : applied.Retains id)
    (hr : (recordsOf applied.before).get? id = some r ∨
      (recordsOf applied.after).get? id = some r)
    (hreleases : ∀ turn ∈ between, ¬ turn.Releases id) :
    Guarded id r.providerId (recordsOf held) ∧
      r.providerId ∈ issuedIn first (earlier ++ applied :: between) := by
  -- On the calls since the first one, the last of them taken off at each step.
  induction between using List.reverseRecOn generalizing held with
  | nil =>
    obtain ⟨hbefore, ran, rfl⟩ := concat_iff.1 session
    rw [issuedIn_concat] at hfresh ⊢
    have howned := hbefore.owned hkeys (List.nodup_append.1 hfresh).1
    refine ⟨ran.guarded_of_carriesOut howned hfresh hdone hretains hr, ?_⟩
    rcases hr with hr | hr
    · exact List.mem_append_left _ (howned.issued hr)
    · exact (howned.turn ran hfresh).issued hr
  | append_singleton between last ih =>
    rw [← List.cons_append, ← List.append_assoc] at session hfresh ⊢
    obtain ⟨hbefore, ran, rfl⟩ := concat_iff.1 session
    rw [issuedIn_concat] at hfresh ⊢
    have hfresh' := (List.nodup_append.1 hfresh).1
    obtain ⟨hguarded, hissued⟩ := ih hbefore hfresh' fun turn hturn =>
      hreleases turn (List.mem_append_left _ hturn)
    exact ⟨ran.guarded (hbefore.owned hkeys hfresh') hfresh hissued hguarded
      (hreleases last (by simp)), List.mem_append_left _ hissued⟩

/-- Once a call has succeeded in carrying out a plan for a declaration by which a node is existing, or
retained, the resource that was recorded for the node is not deleted by any later call until one
has brought about that the node is managed and not retained. -/
theorem not_deleted {earlier between : List Turn} {applied later : Turn} {r : Record}
    (session : Session first (earlier ++ applied :: (between ++ [later])) held)
    (hkeys : ∀ s, first = some s → s.KeysMatch)
    (hfresh : (issuedIn first (earlier ++ applied :: between)).Nodup)
    (hdone : applied.CarriesOut) (hretains : applied.Retains id)
    (hr : (recordsOf applied.before).get? id = some r ∨
      (recordsOf applied.after).get? id = some r)
    (hreleases : ∀ turn ∈ between, ¬ turn.Releases id) (step : Step) (kind : Kind) :
    .called step (.delete kind r.providerId) ∉ later.events := by
  rw [← List.cons_append, ← List.append_assoc] at session
  obtain ⟨hbefore, ran, -⟩ := concat_iff.1 session
  obtain ⟨hguarded, -⟩ := hbefore.guarded hkeys hfresh hdone hretains hr hreleases
  exact ran.not_called (hbefore.owned hkeys hfresh).keysMatch hguarded step kind

/-! ## A log sink that is to be retained, and then not -/

/-- A log sink, and other resources. -/
def sinkStack (policy : RemovalPolicy) (others : List Declaration) : Stack where
  project := { name := "shop", environment := "test" }
  resources := { id := "logs", kind := .logSink, removalPolicy := policy } :: others

def sinkRecord (policy : RemovalPolicy) : Record :=
  { Record.new "logs" .logSink "ls-1" ⟨0, 0⟩ with removalPolicy := policy }

def sinkRecords (policy : RemovalPolicy) : Table Record := .ofList [("logs", sinkRecord policy)]

/-- A state that has nothing but the log sink. -/
def sinkState (s : State) (policy : RemovalPolicy) : State :=
  { s with resources := sinkRecords policy }

theorem sinkState_self {s : State} {policy : RemovalPolicy} (h : s.resources = sinkRecords policy) :
    sinkState s policy = s := by
  rw [sinkState, ← h]

def sinkLock : Lock := .new "lock" "session" ⟨0, 0⟩

def sinkCreation : Step where
  index := 0
  nodeId := "logs"
  kind := .logSink
  action := .create
  reason := "not yet created"
  removalPolicy := .retain

def sinkKept : Step where
  index := 0
  nodeId := "logs"
  kind := .logSink
  action := .noop
  providerId := some "ls-1"
  reason := ""

def sinkDeletion : Step where
  index := 0
  nodeId := "logs"
  kind := .logSink
  action := .delete
  providerId := some "ls-1"
  reason := "stack destroyed"

def clusterCreation : Step where
  index := 1
  nodeId := "cluster"
  kind := .cluster
  action := .create
  reason := "not yet created"

/-- The log sink is created, and is to be retained. -/
theorem exists_created : ∃ (turn : Turn) (s : State), turn.Ran ∧ turn.before = none ∧
    turn.after = some (sinkState s .retain) ∧ turn.issued = ["ls-1"] ∧ turn.CarriesOut ∧
      turn.Retains "logs" ∧
      (recordsOf turn.after).get? "logs" = some (sinkRecord .retain) := by
  obtain ⟨g, hg, hsteps, hnode⟩ : ∃ g, Graph.ofStack (sinkStack .retain []) = .ok g ∧
      Synthesis.steps g none = .ok [sinkCreation] ∧
        ∃ node ∈ g.nodes, node.id = "logs" ∧ node.removalPolicy = .retain :=
    ⟨_, rfl, rfl, _, List.mem_cons_self .., rfl, rfl⟩
  let plan : Plan := {
    createdAt := ⟨0, 0⟩
    configHash := Fingerprint.ofGraph g
    steps := [sinkCreation] }
  have hplan : planFor (sinkStack .retain []) .apply none ⟨0, 0⟩ = .ok plan :=
    bind_eq_ok_iff.2 ⟨g, hg, bind_eq_ok_iff.2 ⟨_, hsteps, rfl⟩⟩
  have h₀ : Execution (.ofApply {}) plan [] _ := .start rfl
  have h₁ := h₀.next (.start rfl)
  have h₂ := h₁.next (@Moment.Move.call _ _ [] _ _ _ _ rfl)
  have h₃ := h₂.next (@Moment.Move.finish _ _ [] _ _ _ _
    (Reply.ok { providerId := "ls-1" } : Reply CreatedResource) _ _ rfl rfl rfl)
  have h₄ := h₃.next (@Moment.Move.collect _ _ [] _ _ _)
  obtain ⟨node, hmem, hid, hpolicy⟩ := hnode
  exact ⟨_, _, Turn.ran_of_execution "session" sinkLock ⟨0, 0⟩ ⟨0, 0⟩ hplan rfl h₄ rfl, rfl, rfl,
    rfl, ⟨_, rfl, rfl, nofun⟩, ⟨node, ⟨rfl, g, hg, hmem⟩, hid, .inr hpolicy⟩, rfl⟩

/-- It is no longer to be retained, but a cluster that is declared with that cannot be created. -/
theorem exists_refused (s : State) : ∃ (turn : Turn) (s' : State), turn.Ran ∧
    turn.before = some (sinkState s .retain) ∧ turn.after = some s' ∧
      s'.resources = sinkRecords .destroy ∧ turn.issued = [] ∧ ¬ turn.Succeeds := by
  let others : List Declaration := [{ id := "cluster", kind := .cluster }]
  obtain ⟨g, hg, hsteps⟩ : ∃ g, Graph.ofStack (sinkStack .destroy others) = .ok g ∧
      Synthesis.steps g (some (sinkState s .retain)) = .ok [sinkKept, clusterCreation] :=
    ⟨_, rfl, rfl⟩
  let plan : Plan := {
    createdAt := ⟨0, 0⟩
    configHash := Fingerprint.ofGraph g
    steps := [sinkKept, clusterCreation] }
  have hplan : planFor (sinkStack .destroy others) .apply (some (sinkState s .retain)) ⟨0, 0⟩ =
      .ok plan :=
    bind_eq_ok_iff.2 ⟨g, hg, bind_eq_ok_iff.2 ⟨_, hsteps, rfl⟩⟩
  have h₀ : Execution (.ofApply {}) plan [] _ := .start rfl
  have h₁ := h₀.next (.settle rfl)
  have h₂ := h₁.next (.start rfl)
  have h₃ := h₂.next (@Moment.Move.call _ _ [] _ _ _ _ rfl)
  have h₄ := h₃.next (@Moment.Move.finish _ _ [] _ _ _ _
    (Reply.failed (.permanent "quota" "no more clusters") : Reply CreatedResource) _ _ rfl rfl rfl)
  have h₅ := h₄.next (@Moment.Move.collect _ _ [] _ _ _)
  refine ⟨_, _, Turn.ran_of_execution "session" sinkLock ⟨0, 0⟩ ⟨0, 0⟩ hplan rfl h₅ rfl, rfl, rfl,
    ?_, rfl, ?_⟩
  · with_unfolding_all rfl
  · rintro ⟨r, hr, hsuccess⟩
    obtain rfl := Except.ok.inj hr
    cases hsuccess

/-- The stack is removed. -/
theorem exists_removed (s : State) : ∃ turn : Turn, turn.Ran ∧
    turn.before = some (sinkState s .destroy) ∧ turn.issued = [] ∧
      .called sinkDeletion (.delete .logSink "ls-1") ∈ turn.events := by
  let plan : Plan := { createdAt := ⟨0, 0⟩, configHash := "", steps := [sinkDeletion] }
  have hplan : planFor (sinkStack .destroy []) .destroy (some (sinkState s .destroy)) ⟨0, 0⟩ =
      .ok plan := rfl
  have h₀ : Execution (.ofApply {}) plan [] _ := .start rfl
  have h₁ := h₀.next (.start rfl)
  have h₂ := h₁.next (@Moment.Move.call _ _ [] _ _ _ _ rfl)
  have h₃ := h₂.next (@Moment.Move.finish _ _ [] _ _ _ _ (Reply.ok () : Reply Unit) _ _ rfl rfl rfl)
  have h₄ := h₃.next (@Moment.Move.collect _ _ [] _ _ _)
  exact ⟨_, Turn.ran_of_execution "session" sinkLock ⟨0, 0⟩ ⟨0, 0⟩ hplan rfl h₄ rfl, rfl, rfl,
    List.mem_append_left _ (List.mem_append_left _ List.mem_concat_self)⟩

/-- No call deletes the log sink as long as nothing has come of its release. -/
theorem not_deleted_refused :
    ∃ applied refused : Turn, Session none [applied, refused] refused.after ∧
      applied.CarriesOut ∧ applied.Retains "logs" ∧
      ∀ step kind, .called step (.delete kind "ls-1") ∉ refused.events := by
  obtain ⟨applied, s, hran, hfirst, hcreated, hissued, hdone, hretains, hr⟩ :=
    exists_created
  obtain ⟨refused, s', hran', hbefore, -⟩ := exists_refused s
  have session : Session none ([] ++ [applied]) applied.after := .next (hfirst ▸ .start) hran
  have session' : Session none ([] ++ applied :: ([] ++ [refused])) refused.after :=
    .next ((hcreated.trans hbefore.symm) ▸ session) hran'
  have hfresh : (issuedIn none ([] ++ applied :: [])).Nodup := by
    simp [issuedIn, hissued, recordsOf, Table.values, Table.empty]
  exact ⟨applied, refused, session', hdone, hretains,
    Session.not_deleted session' (by simp) hfresh hdone hretains (.inr hr) (by simp)⟩

/-- A step is enough to release a resource: the log sink is deleted although no call that was to
release it has succeeded. -/
theorem deleted_after_refused :
    ∃ (applied refused removed : Turn) (r : Record) (step : Step) (kind : Kind),
      Session none [applied, refused, removed] removed.after ∧
        (issuedIn none [applied, refused, removed]).Nodup ∧ applied.CarriesOut ∧
        applied.Retains "logs" ∧ (recordsOf applied.after).get? "logs" = some r ∧
        ¬ refused.Succeeds ∧ .called step (.delete kind r.providerId) ∈ removed.events := by
  obtain ⟨applied, s, hran, hfirst, hcreated, hissued, hdone, hretains, hr⟩ :=
    exists_created
  obtain ⟨refused, s', hran', hbefore, hafter, hreleased, hissued', hfails⟩ := exists_refused s
  obtain ⟨removed, hran'', hbefore', hissued'', hcalled⟩ := exists_removed s'
  have session : Session none ([] ++ [applied]) applied.after := .next (hfirst ▸ .start) hran
  have session' : Session none ([] ++ [applied] ++ [refused]) refused.after :=
    .next ((hcreated.trans hbefore.symm) ▸ session) hran'
  have session'' : Session none ([] ++ [applied] ++ [refused] ++ [removed]) removed.after :=
    .next ((hafter.trans (hbefore'.trans (congrArg some (sinkState_self hreleased))).symm) ▸ session')
      hran''
  refine ⟨applied, refused, removed, sinkRecord .retain, _, _, session'', ?_, hdone, hretains, hr,
    hfails, hcalled⟩
  simp [issuedIn, hissued, hissued', hissued'', recordsOf, Table.values, Table.empty]

end Session

end Converge
