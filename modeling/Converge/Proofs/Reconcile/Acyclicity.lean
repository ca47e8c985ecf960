import Converge.Proofs.Plan.Totality
import Converge.Proofs.Reconcile.Protection
import Converge.Proofs.Reflection

/-!
# Recorded dependencies stay acyclic

Declarations may order the same nodes in opposite ways, and an apply may come to an end half way, so
that records mix what different declarations say. Still no record depends on itself: what a call has
carried out depends on nothing that it has not, and what it has not is recorded as before.

Main statement: `Session.acyclic`.
-/

namespace Converge

open Reconcile Synthesis
open Relation (TransGen)

/-! ## Where two relations meet -/

section Closed

variable {α : Type} {before declared after : α → α → Prop} {done : Set α}

theorem declared_of_closed (hclosed : ∀ {a b}, a ∈ done → after a b → b ∈ done ∧ declared a b)
    {a b : α} (ha : a ∈ done) (h : TransGen after a b) : b ∈ done ∧ TransGen declared a b := by
  induction h with
  | single hstep =>
    obtain ⟨hb, hdeclared⟩ := hclosed ha hstep
    exact ⟨hb, .single hdeclared⟩
  | tail _ hstep ih =>
    obtain ⟨hb, hdeclared⟩ := hclosed ih.1 hstep
    exact ⟨hb, ih.2.tail hdeclared⟩

theorem before_of_closed (hclosed : ∀ {a b}, a ∈ done → after a b → b ∈ done ∧ declared a b)
    (hstays : ∀ {a b}, a ∉ done → b ∉ done → after a b → before a b) {a b : α} (hb : b ∉ done)
    (h : TransGen after a b) : a ∉ done ∧ TransGen before a b := by
  induction h using TransGen.head_induction_on with
  | single hstep =>
    have ha := fun ha => hb (hclosed ha hstep).1
    exact ⟨ha, .single (hstays ha hb hstep)⟩
  | head hstep _ ih =>
    have ha := fun ha => ih.1 (hclosed ha hstep).1
    exact ⟨ha, ih.2.head (hstays ha ih.1 hstep)⟩

/-- A relation that follows one acyclic relation inside a set which it does not leave, and another
one outside, is acyclic. -/
theorem acyclic_of_closed (hclosed : ∀ {a b}, a ∈ done → after a b → b ∈ done ∧ declared a b)
    (hstays : ∀ {a b}, a ∉ done → b ∉ done → after a b → before a b)
    (hdeclared : ∀ a, ¬ TransGen declared a a) (hbefore : ∀ a, ¬ TransGen before a a) (a : α) :
    ¬ TransGen after a a := by
  intro hcycle
  by_cases ha : a ∈ done
  · exact hdeclared a (declared_of_closed hclosed ha hcycle).2
  · exact hbefore a (before_of_closed hclosed hstays ha hcycle).2

end Closed

/-! ## Calls -/

namespace Synthesis.Origin

variable {g : Graph} {prior : Option State} {plan : Plan} {order : List Node}
  {forced : Table String} {plans : List NodePlan} {deletions : List Step}
  {settings : RunSettings} {trace : List Event} {m : Moment} {s : State} {operation : Operation}
  {finished : Instant}

/-- What has been carried out is recorded as depending on what has been carried out, as it is
declared. -/
theorem carriedOut_closed (h : Origin g prior plan order forced plans deletions) (hg : g.Linked)
    (run : Execution settings plan trace m) (hs : ∀ id, s.get? id = (recordsOf prior).get? id)
    {id dependency : String} (hid : id ∈ m.coordinator.report.carriedOut plan)
    (hdepends : Recorded.Depends
      (s.applyReport plan m.coordinator.report operation finished).resources id dependency) :
    dependency ∈ m.coordinator.report.carriedOut plan ∧ dependency ∈ g.dependencies id := by
  obtain ⟨r, hr, hdependency, -⟩ := hdepends
  obtain ⟨i, p, hp, rfl⟩ := h.exists_of_carriedOut hid
  obtain ⟨-, hreflects⟩ := h.reflects_of_recorded run hs hp hid hr
  rw [hreflects.dependencies] at hdependency
  have hnode := h.perm.mem_iff.1 (h.node_mem (List.mem_of_getElem? hp))
  obtain ⟨k, q, step, outcome, -, rfl, hcarried⟩ :=
    h.carried_dependency hg run hp hid ((hg.dependencies p.node hnode).1 hdependency)
  exact ⟨hcarried.mem, hdependency⟩

end Synthesis.Origin

namespace Turn

variable {turn : Turn}

theorem acyclic_applied {plan : Plan} {now later : Instant} {settings : RunSettings} {m : Moment}
    (hkeys : ∀ s, turn.before = some s → s.KeysMatch)
    (hacyclic : Recorded.Acyclic (recordsOf turn.before))
    (planned : planFor turn.stack turn.operation turn.before now = .ok plan)
    (run : Execution settings plan turn.events m) :
    Recorded.Acyclic (turn.applied plan m.coordinator.report later).resources := by
  let started := turn.before.getD
    (.new turn.stack.project.name turn.stack.project.environment later)
  have hstarted : ∀ id, started.get? id = (recordsOf turn.before).get? id := fun _ => get?_getD_new
  -- What has not been carried out is recorded as before, if at all.
  have hstays : ∀ {id dependency}, id ∉ m.coordinator.report.carriedOut plan →
      dependency ∉ m.coordinator.report.carriedOut plan →
      Recorded.Depends (turn.applied plan m.coordinator.report later).resources id dependency →
      Recorded.Depends (recordsOf turn.before) id dependency := by
    rintro id dependency hid hother ⟨r, hr, hdependency, hrecorded⟩
    obtain ⟨r', hr'⟩ := Table.contains_iff.1 hrecorded
    refine ⟨r, ?_, hdependency, Table.contains_iff.2 ⟨r', ?_⟩⟩
    · exact (hstarted id).symm.trans (State.get?_of_not_carriedOut run.index_eq hid hr)
    · exact (hstarted dependency).symm.trans (State.get?_of_not_carriedOut run.index_eq hother hr')
  rcases hoperation : turn.operation with _ | _
  · obtain ⟨g, order, forced, plans, deletions, hg, horigin⟩ :=
      exists_origin hkeys hoperation planned
    have hlinked := Graph.Linked.ofDeclarations hg
    exact acyclic_of_closed (fun hid => horigin.carriedOut_closed hlinked run hstarted hid) hstays
      hlinked.acyclic hacyclic
  · -- Removing a stack carries out no declaration.
    have hnone : ∀ id, id ∉ m.coordinator.report.carriedOut plan := by
      rintro id ⟨k, step, outcome, hstep, rfl, hdelete, -⟩
      obtain ⟨node, ⟨happly, -⟩, -⟩ :=
        (plans hkeys planned).declares step (List.mem_of_getElem? hstep) hdelete
      exact nomatch happly.symm.trans hoperation
    have hempty : ∀ id, ¬ TransGen (fun _ _ : String => False) id id := fun _ hcycle => by
      cases hcycle <;> contradiction
    exact acyclic_of_closed (fun hid => absurd hid (hnone _)) hstays hempty hacyclic

/-- A call leaves recorded dependencies acyclic, however it goes. -/
theorem Ran.acyclic (h : turn.Ran) (hkeys : ∀ s, turn.before = some s → s.KeysMatch)
    (hacyclic : Recorded.Acyclic (recordsOf turn.before)) :
    Recorded.Acyclic (recordsOf turn.after) := by
  cases h.course with
  | idle _ after => rwa [after]
  | broken _ _ after => rwa [after]
  | carried planned run after =>
    rcases after with after | after | ⟨after, -⟩
    · rwa [after]
    · rw [after]
      exact acyclic_applied hkeys hacyclic planned run
    · rw [after]
      exact Recorded.acyclic_empty

end Turn

namespace Session

/-- After any calls, however they went, no record depends on itself, directly or not. So all that is
recorded can be removed in some order, and a plan fails only if a reference cannot be resolved. -/
theorem recorded_acyclic {turns : List Turn} {held : Option State}
    (session : Session none turns held) :
    Recorded.Acyclic (recordsOf held) ∧
      (∀ s, held = some s →
        (∀ doomed, ∃ deletions, Removal.steps s doomed = .ok deletions) ∧
          ∀ now, ∃ plan, Plan.synthesizeDestroy s now = .ok plan) ∧
      ∀ {declarations : List Declaration} {g : Graph} {now : Instant} {cause : Error},
        Graph.ofDeclarations declarations = .ok g → Plan.synthesize g held now = .error cause →
          ∃ nodeId name, cause = .plan (.unresolvedReference nodeId name) := by
  obtain ⟨hkeys, hacyclic⟩ :=
    session.induction (P := fun held => Recorded.Acyclic (recordsOf held)) nofun
      Recorded.acyclic_empty fun turn ran hbefore hacyclic => ran.acyclic hbefore hacyclic
  refine ⟨hacyclic, ?_, ?_⟩
  · rintro s rfl
    exact ⟨Removal.exists_steps (hkeys s rfl) hacyclic,
      Plan.exists_synthesizeDestroy (hkeys s rfl) hacyclic⟩
  · intro declarations g now cause hg hfails
    obtain ⟨inner, rfl, nodeId, name, rfl⟩ :=
      Plan.unresolved_of_synthesize (.ofDeclarations hg) hkeys hacyclic hfails
    exact ⟨nodeId, name, rfl⟩

/-! ## Two log sinks that are ordered one way, and then the other -/

/-- The second log sink waits for the first one. -/
def orderedStack : Stack where
  project := { name := "shop", environment := "test" }
  resources := [{ id := "access", kind := .logSink },
    { id := "audit", kind := .logSink, dependsOn := ["access"] }]

/-- The first log sink, which is to be changed, waits for the second one. -/
def reorderedStack : Stack where
  project := { name := "shop", environment := "test" }
  resources := [
    { id := "access", kind := .logSink, attributes := .ofList [("format", .text "json")],
      dependsOn := ["audit"] },
    { id := "audit", kind := .logSink }]

def accessCreation : Step where
  index := 0
  nodeId := "access"
  kind := .logSink
  action := .create
  reason := "not yet created"

def auditCreation : Step where
  index := 1
  nodeId := "audit"
  kind := .logSink
  action := .create
  dependsOn := [0]
  reason := "not yet created"
  dependencies := ["access"]

def auditKept : Step where
  index := 0
  nodeId := "audit"
  kind := .logSink
  action := .noop
  providerId := some "ls-2"

def accessUpdate : Step where
  index := 1
  nodeId := "access"
  kind := .logSink
  action := .update
  resolved := .ofList [("format", .string "json")]
  dependsOn := [0]
  providerId := some "ls-1"
  changes := [{ name := "format", old := none, new := some (.string "json") }]
  reason := "1 attribute(s) changed"
  dependencies := ["audit"]

def orderedRecords : Table Record := .ofList [
  ("access", Record.new "access" .logSink "ls-1" ⟨0, 0⟩),
  ("audit", { Record.new "audit" .logSink "ls-2" ⟨0, 0⟩ with
    dependencies := ["access"], sequence := 1 })]

/-- A state that has nothing but the two log sinks. -/
def orderedState (s : State) : State := { s with resources := orderedRecords }

theorem exists_ordered : ∃ (turn : Turn) (s : State), turn.Ran ∧ turn.before = none ∧
    turn.after = some (orderedState s) := by
  obtain ⟨g, hg, hsteps⟩ : ∃ g, Graph.ofStack orderedStack = .ok g ∧
      Synthesis.steps g none = .ok [accessCreation, auditCreation] := ⟨_, rfl, rfl⟩
  let plan : Plan := {
    createdAt := ⟨0, 0⟩
    configHash := Fingerprint.ofGraph g
    steps := [accessCreation, auditCreation] }
  have hplan : planFor orderedStack .apply none ⟨0, 0⟩ = .ok plan :=
    bind_eq_ok_iff.2 ⟨g, hg, bind_eq_ok_iff.2 ⟨_, hsteps, rfl⟩⟩
  have h₀ : Execution (.ofApply {}) plan [] _ := .start rfl
  have h₁ := h₀.next (.start rfl)
  have h₂ := h₁.next (@Moment.Move.call _ _ [] _ _ _ _ rfl)
  have h₃ := h₂.next (@Moment.Move.finish _ _ [] _ _ _ _
    (Reply.ok { providerId := "ls-1" } : Reply CreatedResource) _ _ rfl rfl rfl)
  have h₄ := h₃.next (@Moment.Move.collect _ _ [] _ _ _)
  have h₅ := h₄.next (.start rfl)
  have h₆ := h₅.next (@Moment.Move.call _ _ [] _ _ _ _ rfl)
  have h₇ := h₆.next (@Moment.Move.finish _ _ [] _ _ _ _
    (Reply.ok { providerId := "ls-2" } : Reply CreatedResource) _ _ rfl rfl rfl)
  have h₈ := h₇.next (@Moment.Move.collect _ _ [] _ _ _)
  exact ⟨_, _, Turn.ran_of_execution "session" sinkLock ⟨0, 0⟩ ⟨0, 0⟩ hplan rfl h₈ rfl, rfl, rfl⟩

/-- The apply is cancelled as soon as the second log sink, with nothing to do, no longer waits for
the first one. -/
theorem exists_reordered (s : State) : ∃ (turn : Turn) (s' : State), turn.Ran ∧
    turn.before = some (orderedState s) ∧ turn.after = some s' ∧
      (s'.get? "audit").map (·.dependencies) = some [] ∧
      (s'.get? "access").map (·.attributes) = some .empty := by
  obtain ⟨g, hg, hsteps⟩ : ∃ g, Graph.ofStack reorderedStack = .ok g ∧
      Synthesis.steps g (some (orderedState s)) =
        .ok [auditKept, accessUpdate] := ⟨_, rfl, rfl⟩
  let plan : Plan := {
    createdAt := ⟨0, 0⟩
    configHash := Fingerprint.ofGraph g
    steps := [auditKept, accessUpdate] }
  have hplan : planFor reorderedStack .apply (some (orderedState s)) ⟨0, 0⟩ =
      .ok plan :=
    bind_eq_ok_iff.2 ⟨g, hg, bind_eq_ok_iff.2 ⟨_, hsteps, rfl⟩⟩
  have h₀ : Execution (.ofApply {}) plan [] _ := .start rfl
  have h₁ := h₀.next (.settle rfl)
  have h₂ := h₁.next (.cancel _)
  refine ⟨_, _, Turn.ran_of_execution "session" sinkLock ⟨0, 0⟩ ⟨0, 0⟩ hplan rfl h₂ rfl, rfl, rfl,
    ?_, ?_⟩
  · with_unfolding_all rfl
  · with_unfolding_all rfl

/-- Although the second log sink is recorded by the new order, and the first one by the old. -/
theorem recorded_acyclic_reordered : ∃ (first second : Turn) (s : State),
    Session none [first, second] (some s) ∧
      (s.get? "audit").map (·.dependencies) = some [] ∧
      (s.get? "access").map (·.attributes) = some .empty ∧ Recorded.Acyclic s.resources ∧
      ∀ now, ∃ plan, Plan.synthesizeDestroy s now = .ok plan := by
  obtain ⟨first, s, hran, hfirst, hordered⟩ := exists_ordered
  obtain ⟨second, s', hran', hbefore, hafter, haudit, haccess⟩ := exists_reordered s
  have session : Session none ([] ++ [first]) first.after := .next (hfirst ▸ .start) hran
  have session' : Session none ([] ++ [first] ++ [second]) (some s') :=
    hafter ▸ .next ((hordered.trans hbefore.symm) ▸ session) hran'
  obtain ⟨hacyclic, hplans, -⟩ := recorded_acyclic session'
  exact ⟨first, second, s', session', haudit, haccess, hacyclic, (hplans s' rfl).2⟩

end Session

end Converge
