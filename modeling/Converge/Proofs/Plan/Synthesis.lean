import Converge.Plan.Synthesis
import Converge.Proofs.Plan.Decision
import Converge.Proofs.Plan.Removal

/-!
# How a plan comes about

A plan that is synthesized deletes what is doomed and has one step for every declared node, by
decisions on which nothing further is forced.

Main statements: `Synthesis.settle_spec` says how rounds end, and `Synthesis.Origin.of_synthesize`
what a plan is made of.
-/

namespace Converge

open Graph (Ordered)

/-- The nodes that a plan both deletes and creates. -/
def Plan.replaced (plan : Plan) : Set String :=
  {id | (∃ step ∈ plan.steps, step.nodeId = id ∧ step.action = .delete) ∧
    ∃ step ∈ plan.steps, step.nodeId = id ∧ step.action = .create}

theorem Doomed.contains_ofPlans {g : Graph} {records : Table Record} {plans : List NodePlan}
    {id : String} : (Doomed.ofPlans g records plans).contains id = true ↔
      (g.contains id = false ∧ ∃ r, records.get? id = some r) ∨
        ∃ p ∈ plans, p.decision = .replace ∧ p.node.id = id := by
  have hfold : ∀ (ps : List NodePlan) (doomed : Doomed),
      (ps.foldl (fun doomed p => doomed.insert p.node.id s!"replaced: {p.reason}") doomed).contains
        id = true ↔ doomed.contains id = true ∨ ∃ p ∈ ps, p.node.id = id := by
    intro ps
    induction ps with
    | nil => simp
    | cons p ps ih =>
      intro doomed
      rw [List.foldl_cons, ih, List.exists_mem_cons_iff, ← or_assoc, Table.contains,
        Table.get?_insert]
      by_cases heq : id = p.node.id
      · simp [heq]
      · rw [if_neg heq, ← Table.contains, eq_comm (b := id)]
        simp [heq]
  rw [Doomed.ofPlans, hfold]
  refine or_congr ?_ ?_
  · rw [Doomed.orphans, Table.contains, Table.get?_map, Table.get?_filter]
    cases hrecord : records.get? id with
    | none => simp
    | some r => cases g.contains id <;> simp
  · simp [and_assoc]

namespace Synthesis

variable {g : Graph} {order : List Node} {prior : Option State} {forced : Table String}

/-! ## Rounds -/

theorem round_eq_ok_iff {settlement : Settlement} {further : Table String} :
    round g order prior forced = .ok (settlement, further) ↔
      ∃ plans, NodePlan.decideAll (recordsOf prior) forced .empty order = .ok plans ∧
        settlement = ⟨plans, Doomed.ofPlans g (recordsOf prior) plans⟩ ∧
        further = (prior.map fun s => Cascade.forcedBy g s settlement.doomed).getD .empty := by
  rw [round]
  simp only [bind_eq_ok_iff, pure_eq_ok_iff, Prod.mk.injEq]
  refine exists_congr fun plans => and_congr_right fun _ => ?_
  constructor
  · rintro ⟨rfl, rfl⟩
    exact ⟨rfl, rfl⟩
  · rintro ⟨rfl, rfl⟩
    exact ⟨rfl, rfl⟩

/-- Rounds that settle end with one that forces nothing further, and keep until then what every
round keeps. -/
theorem settle_spec {P : Table String → Prop}
    (hround : ∀ {forced settlement further}, P forced →
      round g order prior forced = .ok (settlement, further) → P (forced.merge further))
    {fuel : Nat} (hstart : P forced) {settlement : Settlement}
    (h : settle g order prior fuel forced = .ok (some settlement)) :
    ∃ forced further, P forced ∧ round g order prior forced = .ok (settlement, further) ∧
      further.isEmpty = true := by
  induction fuel generalizing forced with
  | zero => cases h
  | succ fuel ih =>
    rw [settle] at h
    obtain ⟨⟨found, further⟩, hfound, hrest⟩ := bind_eq_ok_iff.1 h
    by_cases hempty : further.isEmpty = true
    · simp only [hempty, if_true] at hrest
      obtain rfl := Option.some.inj (pure_eq_ok_iff.1 hrest)
      exact ⟨forced, further, hstart, hfound, hempty⟩
    · simp only [hempty, Bool.false_eq_true, if_false] at hrest
      exact ih (hround hstart hfound) hrest

/-! ## How many rounds -/

theorem exists_of_settle {fuel : Nat} (h : settle g order prior fuel forced ≠ .ok none) :
    ∃ result : Except PlanError Settlement,
      settle g order prior fuel forced = result.map some := by
  cases hfound : settle g order prior fuel forced with
  | error cause => exact ⟨.error cause, rfl⟩
  | ok found =>
    cases found with
    | none => exact absurd hfound h
    | some settlement => exact ⟨.ok settlement, rfl⟩

theorem map_some_inj {result other : Except PlanError Settlement}
    (h : result.map some = other.map some) : result = other := by
  cases result <;> cases other <;> cases h <;> rfl

/-- Rounds that come to something come to the same if more of them are allowed. -/
theorem settle_add {fuel more : Nat} {result : Except PlanError Settlement}
    (h : settle g order prior fuel forced = result.map some) :
    settle g order prior (fuel + more) forced = result.map some := by
  induction fuel generalizing forced with
  | zero => cases result <;> cases h
  | succ fuel ih =>
    rw [Nat.add_right_comm, settle]
    rw [settle] at h
    cases hround : round g order prior forced with
    | error cause => rwa [hround] at h
    | ok found =>
      obtain ⟨settlement, further⟩ := found
      rw [hround] at h
      by_cases hempty : further.isEmpty = true
      · exact (if_pos hempty).trans ((if_pos hempty).symm.trans h)
      · exact (if_neg hempty).trans (ih ((if_neg hempty).symm.trans h))

theorem attempt_of_none {rounds : Nat} (h : settle g order prior rounds .empty = .ok none) :
    attempt g order prior rounds = .inl (rounds + 1) := by
  rw [attempt]
  split
  · next hfails => exact nomatch h.symm.trans hfails
  · next hsettles => exact nomatch h.symm.trans hsettles
  · rfl

theorem attempt_of_settle {rounds : Nat} {result : Except PlanError Settlement}
    (h : settle g order prior rounds .empty = result.map some) :
    attempt g order prior rounds = .inr (some ⟨result, rounds, h⟩) := by
  rw [attempt]
  split
  · next hfails => cases result <;> cases h.symm.trans hfails; rfl
  · next hsettles => cases result <;> cases h.symm.trans hsettles; rfl
  · next hnone => cases result <;> cases h.symm.trans hnone

/-- One number of rounds is tried, and the next if it is not enough. -/
theorem search_eq (rounds : Nat) : search g order prior rounds =
    match attempt g order prior rounds with
    | .inl next => search g order prior next
    | .inr ending => ending := by
  rw [search, repeatM_eq_of_monadTail, repeatM.body]
  cases attempt g order prior rounds <;> rfl

/-- The search ends with what any number of rounds from its own on comes to. -/
theorem search_of_settle {rounds : Nat} (more : Nat) {result : Except PlanError Settlement}
    (h : settle g order prior (rounds + more) .empty = result.map some) :
    (search g order prior rounds).map (·.result) = some result := by
  induction more generalizing rounds with
  | zero =>
    rw [Nat.add_zero] at h
    rw [search_eq, attempt_of_settle h]
    rfl
  | succ more ih =>
    rw [search_eq]
    by_cases hnone : settle g order prior rounds .empty = .ok none
    · rw [attempt_of_none hnone]
      exact ih (by rwa [Nat.add_right_comm])
    · obtain ⟨found, hfound⟩ := exists_of_settle hnone
      rw [attempt_of_settle hfound]
      exact congrArg some (map_some_inj ((settle_add hfound).symm.trans h))

/-- What is found within the limit is what the search finds. -/
theorem outcome_eq :
    outcome g order prior = (search g order prior (roundLimit order)).map (·.result) := by
  by_cases hnone : settle g order prior (roundLimit order) .empty = .ok none
  · rw [outcome, hnone]
  · obtain ⟨result, hresult⟩ := exists_of_settle hnone
    refine Eq.trans ?_ (search_of_settle 0 hresult).symm
    rw [outcome, hresult]
    cases result <;> rfl

/-- Deciding ends if some number of rounds settles or fails, and as those do. -/
theorem outcome_eq_some_iff {result : Except PlanError Settlement} :
    outcome g order prior = some result ↔
      ∃ fuel, settle g order prior fuel .empty = result.map some := by
  rw [outcome_eq]
  constructor
  · intro h
    obtain ⟨ending, -, rfl⟩ := Option.map_eq_some_iff.1 h
    exact ending.reached
  · rintro ⟨fuel, h⟩
    refine search_of_settle fuel ?_
    rw [Nat.add_comm]
    exact settle_add h

/-- Deciding does not end if no number of rounds is enough. -/
theorem outcome_eq_none_iff : outcome g order prior = none ↔
    ∀ fuel, settle g order prior fuel .empty = .ok none := by
  constructor
  · intro h fuel
    by_contra hsettles
    obtain ⟨result, hresult⟩ := exists_of_settle hsettles
    cases h.symm.trans (outcome_eq_some_iff.2 ⟨fuel, hresult⟩)
  · intro h
    refine Option.eq_none_iff_forall_not_mem.2 fun result hresult => ?_
    obtain ⟨fuel, hfuel⟩ := outcome_eq_some_iff.1 hresult
    cases result <;> cases (h fuel).symm.trans hfuel

/-- Decisions are reached if some number of rounds reaches them. -/
theorem outcome_eq_ok_iff {settlement : Settlement} :
    outcome g order prior = some (.ok settlement) ↔
      ∃ fuel, settle g order prior fuel .empty = .ok (some settlement) :=
  outcome_eq_some_iff

/-! ## Steps -/

theorem getElem?_stepsFor {deleted placed : Table Nat} {next i : Nat} {plans : List NodePlan} :
    (stepsFor g deleted placed next plans)[i]? = plans[i]?.map fun p =>
      stepFor g deleted (placed.number next ((plans.take i).map (·.node.id))) (next + i) p := by
  induction plans generalizing placed next i with
  | nil => simp [stepsFor]
  | cons p plans ih =>
    rw [stepsFor]
    cases i with
    | zero => simp [Table.number]
    | succ i =>
      rw [List.getElem?_cons_succ, List.getElem?_cons_succ, ih, Nat.add_right_comm,
        Nat.add_assoc next i 1]
      rfl

/-- A step says of its node what the plan says. Only where the resource is, what it puts out and
whether it is managed come from the declaration or the record. -/
theorem exists_stepFor (g : Graph) (deleted placed : Table Nat) (index : Nat) (p : NodePlan) :
    ∃ providerId outputs managed, stepFor g deleted placed index p =
      { index, nodeId := p.node.id, kind := p.node.kind, action := p.decision.action,
        resolved := p.resolved, deferred := p.deferred,
        dependsOn := sortBy (· ≤ ·) ((g.dependencies p.node.id).filterMap placed.get? ++
          (if p.decision = .replace then [p.node.id] else []).filterMap deleted.get?),
        changes := p.changes, reason := p.reason, dependencies := g.dependencies p.node.id,
        removalPolicy := p.node.removalPolicy, providerId, outputs, managed } := by
  rw [stepFor]
  split <;> exact ⟨_, _, _, rfl⟩

section stepFor

variable {deleted placed : Table Nat} {index : Nat} {p : NodePlan}

theorem stepFor_nodeId : (stepFor g deleted placed index p).nodeId = p.node.id := by
  obtain ⟨_, _, _, hstep⟩ := exists_stepFor g deleted placed index p
  rw [hstep]

theorem stepFor_action : (stepFor g deleted placed index p).action = p.decision.action := by
  obtain ⟨_, _, _, hstep⟩ := exists_stepFor g deleted placed index p
  rw [hstep]

theorem stepFor_resolved : (stepFor g deleted placed index p).resolved = p.resolved := by
  obtain ⟨_, _, _, hstep⟩ := exists_stepFor g deleted placed index p
  rw [hstep]

theorem stepFor_deferred : (stepFor g deleted placed index p).deferred = p.deferred := by
  obtain ⟨_, _, _, hstep⟩ := exists_stepFor g deleted placed index p
  rw [hstep]

theorem stepFor_changes : (stepFor g deleted placed index p).changes = p.changes := by
  obtain ⟨_, _, _, hstep⟩ := exists_stepFor g deleted placed index p
  rw [hstep]

theorem stepFor_kind : (stepFor g deleted placed index p).kind = p.node.kind := by
  obtain ⟨_, _, _, hstep⟩ := exists_stepFor g deleted placed index p
  rw [hstep]

theorem stepFor_dependencies :
    (stepFor g deleted placed index p).dependencies = g.dependencies p.node.id := by
  obtain ⟨_, _, _, hstep⟩ := exists_stepFor g deleted placed index p
  rw [hstep]

theorem stepFor_removalPolicy :
    (stepFor g deleted placed index p).removalPolicy = p.node.removalPolicy := by
  obtain ⟨_, _, _, hstep⟩ := exists_stepFor g deleted placed index p
  rw [hstep]

theorem stepFor_managed :
    (stepFor g deleted placed index p).managed = !p.node.isExisting := by
  rw [Node.isExisting]
  cases hlifecycle : p.node.lifecycle with
  | managed =>
    rw [stepFor]
    split
    · next hexisting => rw [hlifecycle] at hexisting; cases hexisting
    · rfl
    · rfl
    · rfl
  | existing providerId outputs =>
    simp only [stepFor, hlifecycle]
    rfl

theorem stepFor_outputs_existing {providerId : String} {outputs : Outputs}
    (h : p.node.lifecycle = .existing providerId outputs) :
    (stepFor g deleted placed index p).outputs = outputs := by
  simp only [stepFor, h]

/-- A node that is kept or updated brings its recorded outputs along. -/
theorem stepFor_outputs_recorded {r : Record} (hlifecycle : p.node.lifecycle = .managed)
    (hdecision : p.decision = .keep ∨ p.decision = .update) (hprior : p.prior = some r) :
    (stepFor g deleted placed index p).outputs = r.outputs := by
  rcases hdecision with hdecision | hdecision <;>
    simp only [stepFor, hlifecycle, hdecision, hprior]

theorem stepFor_index : (stepFor g deleted placed index p).index = index := by
  obtain ⟨_, _, _, hstep⟩ := exists_stepFor g deleted placed index p
  rw [hstep]

theorem stepFor_dependsOn : (stepFor g deleted placed index p).dependsOn =
    sortBy (· ≤ ·) ((g.dependencies p.node.id).filterMap placed.get? ++
      (if p.decision = .replace then [p.node.id] else []).filterMap deleted.get?) := by
  obtain ⟨_, _, _, hstep⟩ := exists_stepFor g deleted placed index p
  rw [hstep]

/-- A step waits for those of all that its node depends on, and the step that replaces a node for
the one that deletes it. -/
theorem mem_dependsOn_stepFor {i : Nat} : i ∈ (stepFor g deleted placed index p).dependsOn ↔
    (∃ id ∈ g.dependencies p.node.id, placed.get? id = some i) ∨
      p.decision = .replace ∧ deleted.get? p.node.id = some i := by
  rw [stepFor_dependsOn, mem_sortBy, List.mem_append, List.mem_filterMap]
  refine or_congr_right ?_
  split <;> simp [*]

end stepFor

/-! ## Plans -/

theorem get?_getD_new {project environment id : String} {now : Instant} :
    (prior.getD (.new project environment now)).get? id = (recordsOf prior).get? id := by
  cases prior <;> rfl

/-- What a synthesized plan is made of: decisions on the nodes in dependency order, of which those
in `forced` are replaced, and deletions. -/
structure Layout (g : Graph) (prior : Option State) (plan : Plan) (order : List Node)
    (forced : Table String) (plans : List NodePlan) (deletions : List Step) : Prop where
  sorted : g.sortedNodes = .ok order
  perm : order.Perm g.nodes
  ordered : Ordered order
  nodes : plans.map (·.node) = order
  verdict : ∀ p ∈ plans, (Verdicts.ofPlans plans).get? p.node.id = some p.verdict
  decided : ∀ p ∈ plans, p.Decided (recordsOf prior) forced (Verdicts.ofPlans plans)
  settled : ∀ s, prior = some s → ∀ id,
    (Cascade.forcedBy g s (Doomed.ofPlans g (recordsOf prior) plans)).contains id = false
  bare : ∀ step ∈ deletions, step.action = .delete ∧ step.deferred = .empty
  steps : plan.steps = deletions ++
    stepsFor g (indicesByNode deletions) .empty deletions.length plans

/-- What a plan is made of that is synthesized from records that stand under their own ids: its
deletions are those of what is doomed. -/
structure Origin (g : Graph) (prior : Option State) (plan : Plan) (order : List Node)
    (forced : Table String) (plans : List NodePlan) (deletions : List Step) : Prop
    extends Layout g prior plan order forced plans deletions where
  removal : Removal.Sound (recordsOf prior) (Doomed.ofPlans g (recordsOf prior) plans) deletions

/-- There is a plan just if the nodes have an order, decisions on them are reached, and what goes by
these has an order as well. -/
theorem synthesize_eq_ok_iff {now : Instant} {plan : Plan} :
    Plan.synthesize g prior now = .ok plan ↔
      ∃ order settlement deletions, g.sortedNodes = .ok order ∧
        outcome g order prior = some (.ok settlement) ∧
        ((prior = none ∧ deletions = []) ∨ ∃ s, prior = some s ∧
          Removal.steps s settlement.doomed = .ok deletions) ∧
        { createdAt := now, configHash := Fingerprint.ofGraph g, steps := deletions ++
            stepsFor g (indicesByNode deletions) .empty deletions.length settlement.plans } =
          plan := by
  constructor
  · intro h
    obtain ⟨steps, hsteps, h⟩ := bind_eq_ok_iff.1 h
    obtain rfl := pure_eq_ok_iff.1 h
    obtain ⟨order, horder, hsteps⟩ := bind_eq_ok_iff.1 hsteps
    cases houtcome : outcome g order prior with
    | none =>
      rw [houtcome] at hsteps
      cases hsteps
    | some result =>
      rw [houtcome] at hsteps
      obtain ⟨settlement, hsettlement, hsteps⟩ := bind_eq_ok_iff.1 hsteps
      rw [mapError_eq_ok_iff.1 hsettlement] at houtcome
      refine ⟨order, settlement, ?_⟩
      cases prior with
      | none =>
        obtain rfl := Except.ok.inj hsteps
        exact ⟨[], mapError_eq_ok_iff.1 horder, houtcome, .inl ⟨rfl, rfl⟩, rfl⟩
      | some s =>
        obtain ⟨deletions, hdeletions, hsteps⟩ := bind_eq_ok_iff.1 hsteps
        obtain rfl := Except.ok.inj hsteps
        exact ⟨deletions, mapError_eq_ok_iff.1 horder, houtcome,
          .inr ⟨s, rfl, mapError_eq_ok_iff.1 hdeletions⟩, rfl⟩
  · rintro ⟨order, settlement, deletions, horder, houtcome, hdeletions, rfl⟩
    refine bind_eq_ok_iff.2 ⟨_, bind_eq_ok_iff.2 ⟨order, mapError_eq_ok_iff.2 horder, ?_⟩, rfl⟩
    rw [houtcome]
    refine bind_eq_ok_iff.2 ⟨settlement, rfl, ?_⟩
    rcases hdeletions with ⟨rfl, rfl⟩ | ⟨s, rfl, hdeletions⟩
    · rfl
    · exact bind_eq_ok_iff.2 ⟨deletions, mapError_eq_ok_iff.2 hdeletions, rfl⟩

theorem Layout.of_synthesize (hg : g.Linked) {now : Instant} {plan : Plan}
    (h : Plan.synthesize g prior now = .ok plan) {P : List Node → Table String → Prop}
    (hstart : ∀ order, P order .empty)
    (hround : ∀ {order forced settlement further}, g.sortedNodes = .ok order → P order forced →
      round g order prior forced = .ok (settlement, further) → P order (forced.merge further)) :
    ∃ order forced plans deletions, P order forced ∧
      Layout g prior plan order forced plans deletions ∧
      ((prior = none ∧ deletions = []) ∨ ∃ s, prior = some s ∧
        Removal.steps s (Doomed.ofPlans g (recordsOf prior) plans) = .ok deletions) := by
  obtain ⟨order, settlement, deletions, hsorted, houtcome, hremoval, rfl⟩ :=
    synthesize_eq_ok_iff.1 h
  obtain ⟨order', hsorted', hperm, hordered⟩ := hg.sortedNodes
  obtain rfl : order = order' := Except.ok.inj (hsorted.symm.trans hsorted')
  obtain ⟨fuel, hsettled⟩ := outcome_eq_ok_iff.1 houtcome
  obtain ⟨forced, further, hforced, hlast, hempty⟩ := settle_spec (P := P order)
    (fun hforced hround' => hround hsorted hforced hround') (hstart order) hsettled
  obtain ⟨plans, hplans, rfl, rfl⟩ := round_eq_ok_iff.1 hlast
  have hspec := NodePlan.decideAll_spec hordered hplans
  refine ⟨order, forced, plans, deletions, hforced, ⟨hsorted, hperm, hordered,
    NodePlan.decideAll_nodes hplans, fun p hp => (hspec p hp).1, fun p hp => (hspec p hp).2,
    ?_, ?_, rfl⟩, hremoval⟩
  · rintro s rfl id
    exact Table.contains_eq_false_iff.2 (Table.isEmpty_iff.1 hempty id)
  · rcases hremoval with ⟨-, rfl⟩ | ⟨s, -, hdeletions⟩
    · simp
    · exact fun step hstep => Removal.bare_of_mem_steps hdeletions hstep

theorem Origin.of_synthesize (hg : g.Linked) (hprior : ∀ s, prior = some s → s.KeysMatch)
    {now : Instant} {plan : Plan} (h : Plan.synthesize g prior now = .ok plan)
    {P : List Node → Table String → Prop} (hstart : ∀ order, P order .empty)
    (hround : ∀ {order forced settlement further}, g.sortedNodes = .ok order → P order forced →
      round g order prior forced = .ok (settlement, further) → P order (forced.merge further)) :
    ∃ order forced plans deletions, P order forced ∧
      Origin g prior plan order forced plans deletions := by
  obtain ⟨order, forced, plans, deletions, hforced, hlayout, hremoval⟩ :=
    Layout.of_synthesize hg h hstart hround
  refine ⟨order, forced, plans, deletions, hforced, hlayout, ?_⟩
  rcases hremoval with ⟨rfl, rfl⟩ | ⟨s, rfl, hremoval⟩
  · refine ⟨?_, ?_, ?_, ?_, ?_, ?_, ?_⟩ <;> simp [recordsOf]
  · exact Removal.steps_spec (hprior s rfl) hremoval

theorem Layout.exists_of_synthesize (hg : g.Linked) {now : Instant} {plan : Plan}
    (h : Plan.synthesize g prior now = .ok plan) :
    ∃ order forced plans deletions, Layout g prior plan order forced plans deletions := by
  obtain ⟨order, forced, plans, deletions, -, hlayout, -⟩ :=
    Layout.of_synthesize (P := fun _ _ => True) hg h (fun _ => trivial) fun _ _ _ => trivial
  exact ⟨order, forced, plans, deletions, hlayout⟩

theorem Origin.exists_of_synthesize (hg : g.Linked)
    (hprior : ∀ s, prior = some s → s.KeysMatch) {now : Instant} {plan : Plan}
    (h : Plan.synthesize g prior now = .ok plan) :
    ∃ order forced plans deletions, Origin g prior plan order forced plans deletions := by
  obtain ⟨order, forced, plans, deletions, -, horigin⟩ :=
    Origin.of_synthesize (P := fun _ _ => True) hg hprior h (fun _ => trivial)
      fun _ _ _ => trivial
  exact ⟨order, forced, plans, deletions, horigin⟩

variable {plan : Plan} {plans : List NodePlan} {deletions : List Step}

namespace Origin

theorem action_ne_delete (decision : Decision) : decision.action ≠ .delete := by
  cases decision <;> simp [Decision.action]

theorem action_eq_create_iff {decision : Decision} :
    decision.action = .create ↔ decision = .create ∨ decision = .replace := by
  cases decision <;> simp [Decision.action]

theorem action_eq_update_iff {decision : Decision} :
    decision.action = .update ↔ decision = .update := by
  cases decision <;> simp [Decision.action]

end Origin

namespace Layout

theorem exists_plan (h : Layout g prior plan order forced plans deletions) {node : Node}
    (hnode : node ∈ order) : ∃ p ∈ plans, p.node = node := by
  rw [← h.nodes, List.mem_map] at hnode
  exact hnode

theorem node_mem (h : Layout g prior plan order forced plans deletions) {p : NodePlan}
    (hp : p ∈ plans) : p.node ∈ order := by
  rw [← h.nodes]
  exact List.mem_map_of_mem hp

theorem nodup_plans (h : Layout g prior plan order forced plans deletions) :
    (plans.map (·.node.id)).Nodup := by
  have := h.ordered.nodup
  rwa [← h.nodes, List.map_map] at this

/-- There is one plan for every node. -/
theorem plan_ext (h : Layout g prior plan order forced plans deletions) {p q : NodePlan}
    (hp : p ∈ plans) (hq : q ∈ plans) (hid : p.node.id = q.node.id) : p = q := by
  exact List.inj_on_of_nodup_map h.nodup_plans hp hq hid

/-- The steps of a plan are deletions and one step for every decision. -/
theorem mem_steps (h : Layout g prior plan order forced plans deletions) {step : Step} :
    step ∈ plan.steps ↔ step ∈ deletions ∨ ∃ i p, plans[i]? = some p ∧
      stepFor g (indicesByNode deletions)
        (.number .empty deletions.length ((plans.take i).map (·.node.id))) (deletions.length + i)
        p = step := by
  rw [h.steps, List.mem_append]
  refine or_congr_right ?_
  rw [List.mem_iff_getElem?]
  simp only [getElem?_stepsFor, Option.map_eq_some_iff]

theorem mem_deletions_iff (h : Layout g prior plan order forced plans deletions) {step : Step} :
    step ∈ deletions ↔ step ∈ plan.steps ∧ step.action = .delete := by
  constructor
  · exact fun hstep => ⟨h.mem_steps.2 (.inl hstep), (h.bare step hstep).1⟩
  · rintro ⟨hstep, haction⟩
    rcases h.mem_steps.1 hstep with hdeletion | ⟨i, p, -, rfl⟩
    · exact hdeletion
    · rw [stepFor_action] at haction
      exact absurd haction (Origin.action_ne_delete _)

/-- A node is managed, or its step does nothing and says that it is not. -/
theorem managed_or_noop (h : Layout g prior plan order forced plans deletions) {p : NodePlan}
    (hp : p ∈ plans) (deleted placed : Table Nat) (i : Nat) :
    p.node.lifecycle = .managed ∨
      (stepFor g deleted placed i p).action = .noop ∧
        (stepFor g deleted placed i p).managed = false := by
  cases h.decided p hp with
  | existing providerId outputs lifecycle decision =>
    refine .inr ⟨by rw [stepFor_action, decision]; rfl, ?_⟩
    rw [stepFor_managed, NodePlan.isExisting_iff.2 ⟨_, _, lifecycle⟩]
    rfl
  | create lifecycle => exact .inl lifecycle
  | replace r lifecycle => exact .inl lifecycle
  | update r lifecycle => exact .inl lifecycle
  | keep r lifecycle => exact .inl lifecycle

/-- The step of a planned node stands behind the deletions, in the order of the nodes. -/
theorem getElem?_step (h : Layout g prior plan order forced plans deletions) {i : Nat}
    {p : NodePlan} (hp : plans[i]? = some p) :
    plan.steps[deletions.length + i]? =
      some (stepFor g (indicesByNode deletions)
        (.number .empty deletions.length ((plans.take i).map (·.node.id))) (deletions.length + i)
        p) := by
  rw [h.steps, List.getElem?_append_right (Nat.le_add_right ..), Nat.add_sub_cancel_left,
    getElem?_stepsFor, hp]
  rfl

/-- Where in a plan a step stands. -/
theorem getElem?_cases (h : Layout g prior plan order forced plans deletions) {k : Nat}
    {step : Step} (hstep : plan.steps[k]? = some step) :
    deletions[k]? = some step ∨ ∃ i p, k = deletions.length + i ∧ plans[i]? = some p ∧
      stepFor g (indicesByNode deletions)
        (.number .empty deletions.length ((plans.take i).map (·.node.id))) (deletions.length + i)
        p = step := by
  rw [h.steps, List.getElem?_append] at hstep
  split at hstep
  · exact .inl hstep
  · next hlt =>
    rw [getElem?_stepsFor] at hstep
    obtain ⟨p, hp, heq⟩ := Option.map_eq_some_iff.1 hstep
    exact .inr ⟨k - deletions.length, p, by omega, hp, heq⟩

/-- A plan has one step for every declared node. -/
theorem step_unique (h : Layout g prior plan order forced plans deletions) {k : Nat} {step : Step}
    (hstep : plan.steps[k]? = some step) (hdelete : step.action ≠ .delete) {i : Nat}
    {p : NodePlan} (hp : plans[i]? = some p) (hid : step.nodeId = p.node.id) :
    k = deletions.length + i := by
  rcases h.getElem?_cases hstep with hdeletion | ⟨j, q, rfl, hq, rfl⟩
  · exact absurd ((h.bare step (List.mem_of_getElem? hdeletion)).1) hdelete
  · rw [stepFor_nodeId] at hid
    have hlt : j < (plans.map (·.node.id)).length := by
      rw [List.length_map]
      exact (List.getElem?_eq_some_iff.1 hq).1
    have hsame : (plans.map (·.node.id))[j]? = (plans.map (·.node.id))[i]? := by
      rw [List.getElem?_map, List.getElem?_map, hq, hp, Option.map_some, Option.map_some, hid]
    rw [(List.getElem?_inj hlt h.nodup_plans).1 hsame]

/-- What a declared node depends on has a step before its own, which waits for that. -/
theorem exists_dependency (h : Layout g prior plan order forced plans deletions) (hg : g.Linked)
    {i : Nat} {p : NodePlan} (hp : plans[i]? = some p) {id : String}
    (hid : id ∈ p.node.dependencyIds) {step : Step}
    (hstep : plan.steps[deletions.length + i]? = some step) :
    ∃ j q, plans[j]? = some q ∧ q.node.id = id ∧ deletions.length + j ∈ step.dependsOn := by
  obtain rfl := Option.some.inj ((h.getElem?_step hp).symm.trans hstep)
  have hmem := List.mem_of_getElem? hp
  have hsplit : order =
      (plans.take i).map (·.node) ++ p.node :: (plans.drop (i + 1)).map (·.node) := by
    obtain ⟨hlt, heq⟩ := List.getElem?_eq_some_iff.1 hp
    rw [← h.nodes, ← heq, ← List.map_cons, List.getElem_cons_drop, ← List.map_append,
      List.take_append_drop]
  obtain ⟨other, hother, rfl⟩ := h.ordered.before _ _ _ hsplit id hid
  obtain ⟨q, hq, rfl⟩ := List.mem_map.1 hother
  obtain ⟨j, hj⟩ := List.mem_iff_getElem?.1 hq
  have hplaced : (plans.take i).map (·.node.id) <+: plans.map (·.node.id) :=
    (List.take_prefix i plans).map _
  refine ⟨j, q, ?_, rfl, mem_dependsOn_stepFor.2 (.inl ⟨_,
    (hg.dependencies p.node (h.perm.mem_iff.1 (h.node_mem hmem))).2 hid, ?_⟩)⟩
  · rw [List.getElem?_take] at hj
    split at hj
    · exact hj
    · cases hj
  · rw [Table.get?_number_empty (h.nodup_plans.sublist hplaced.sublist)]
    exact ⟨j, by rw [List.getElem?_map, hj]; rfl, rfl⟩

end Layout

namespace Origin

/-- The nodes that are both deleted and created are those whose decision is to replace them. -/
theorem mem_replaced (h : Origin g prior plan order forced plans deletions) {id : String} :
    id ∈ plan.replaced ↔ ∃ p ∈ plans, p.decision = .replace ∧ p.node.id = id := by
  constructor
  · rintro ⟨⟨deletion, hdeletion, rfl, hdelete⟩, step, hstep, hid, haction⟩
    obtain ⟨-, r, hrecord, -⟩ :=
      h.removal.record deletion (h.mem_deletions_iff.2 ⟨hdeletion, hdelete⟩)
    rcases h.mem_steps.1 hstep with hdeletion | ⟨i, p, hp, rfl⟩
    · rw [h.removal.action step hdeletion] at haction
      cases haction
    · rw [stepFor_nodeId] at hid
      rw [stepFor_action, action_eq_create_iff] at haction
      refine ⟨p, List.mem_of_getElem? hp, haction.resolve_left fun hnew => ?_, hid⟩
      have hnone := ((h.decided p (List.mem_of_getElem? hp)).unrecorded hnew).2
      rw [hid, hrecord] at hnone
      cases hnone
  · rintro ⟨p, hp, hreplace, rfl⟩
    obtain ⟨-, r, hrecord⟩ := (h.decided p hp).recorded hreplace
    obtain ⟨deletion, hdeletion, hid⟩ := h.removal.complete hrecord
      (Doomed.contains_ofPlans.2 (.inr ⟨p, hp, hreplace, rfl⟩))
    obtain ⟨i, hi⟩ := List.mem_iff_getElem?.1 hp
    refine ⟨⟨deletion, h.mem_steps.2 (.inl hdeletion), hid, h.removal.action _ hdeletion⟩,
      _, h.mem_steps.2 (.inr ⟨i, p, hi, rfl⟩), stepFor_nodeId, ?_⟩
    rw [stepFor_action, hreplace]
    rfl

/-- What was recorded as depending on a resource that is deleted goes as well, unless it is declared
as existing: nothing further is forced. -/
theorem doomed_of_dependency (h : Origin g prior plan order forced plans deletions)
    (hg : g.Coherent) (hprior : ∀ s, prior = some s → s.KeysMatch) {id dependency : String}
    {r rd : Record} (hr : (recordsOf prior).get? id = some r)
    (hdependency : dependency ∈ r.dependencies)
    (hrd : (recordsOf prior).get? dependency = some rd) (hdestroy : rd.removalPolicy = .destroy)
    (hdoomed : (Doomed.ofPlans g (recordsOf prior) plans).contains dependency = true)
    (howned : ∀ node ∈ g.nodes, node.id = id → node.lifecycle = .managed) :
    (Doomed.ofPlans g (recordsOf prior) plans).contains id = true := by
  by_contra hstays
  cases prior with
  | none => cases hr
  | some s =>
    have hid : r.id = id := hprior s rfl hr
    subst hid
    have hmanaged : Cascade.Manages g r.id := by
      cases hdeclared : g.contains r.id with
      | false => exact absurd (Doomed.contains_ofPlans.2 (.inl ⟨hdeclared, r, hr⟩)) hstays
      | true =>
        obtain ⟨node, hnode, hid⟩ := Graph.mem_ids.1 (Graph.contains_iff.1 hdeclared)
        exact ⟨node, hnode, hid, howned node hnode hid⟩
    have hmem : r ∈ s.inCreationOrder :=
      (State.KeysMatch.mem_inCreationOrder (hprior s rfl)).2 hr
    have hforced := Cascade.contains_forcedBy hg hmem hmanaged (Bool.eq_false_iff.2 hstays)
      hdependency (Cascade.mem_start.2 ⟨hdoomed, rd, hrd, hdestroy⟩)
    exact Bool.eq_false_iff.1 (h.settled s rfl r.id) hforced

end Origin

end Synthesis

end Converge
