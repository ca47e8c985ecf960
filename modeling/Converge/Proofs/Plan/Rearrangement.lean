import Converge.Proofs.Graph.Rearrangement
import Converge.Proofs.Plan.Coverage
import Converge.Proofs.Plan.Termination

/-!
# Plans for rearranged declarations

The order in which resources and ports are declared decides which of several dependency orders a
graph has, and so where the steps of a plan stand. Nothing else goes by it: each round of decisions
comes to the same for every node, whatever the order, since a decision knows the verdicts on what
its node depends on, and those come before it in every order.

Main statements: `NodePlan.decideAll_perm`, `Synthesis.settle_perm` and `Plan.synthesize_rearranged`.
-/

namespace Converge

open Graph (Ordered)

/-! ## Decisions -/

theorem Verdicts.ofPlans_perm {plans plans' : List NodePlan} (hperm : plans.Perm plans')
    (hnodup : (plans.map (·.node.id)).Nodup) : ofPlans plans = ofPlans plans' :=
  Table.foldl_insert_perm hperm hnodup .empty

namespace NodePlan

variable {node : Node} {records : Table Record} {forced : Table String} {v w : Verdicts}
  {order order' : List Node} {plans plans' : List NodePlan} {p : NodePlan}

/-- Deciding on a node knows the verdicts on what it depends on, and no others. -/
theorem decide_congr {prior : Option Record} {own : NodePlan}
    (h : ∀ id ∈ node.dependencyIds, w.get? id = v.get? id)
    (hown : decide node prior v = .ok own) : decide node prior w = .ok own := by
  rw [decide] at hown ⊢
  split at hown
  · next hexisting => rwa [if_pos hexisting]
  · next hmanaged =>
    obtain ⟨⟨resolved, deferred⟩, hparts, hrest⟩ := bind_eq_ok_iff.1 hown
    have hparted := (resolveAttributes_eq_ok_iff.1 hparts).congr fun name value hvalue r hr =>
      Verdict.lookupIn_congr (h _ (Verdict.mem_dependencyIds hvalue hr))
    rw [if_neg hmanaged]
    exact bind_eq_ok_iff.2 ⟨_, resolveAttributes_eq_ok_iff.2 hparted, hrest⟩

/-- Whether a planned node is what deciding on it comes to under a table of verdicts. -/
def MadeUnder (records : Table Record) (forced : Table String) (v : Verdicts) (p : NodePlan) :
    Prop :=
  ∃ own, decide p.node (records.get? p.node.id) v = .ok own ∧
    own.force (forced.get? p.node.id) = p

theorem MadeUnder.congr (h : p.MadeUnder records forced v)
    (heq : ∀ id ∈ p.node.dependencyIds, w.get? id = v.get? id) : p.MadeUnder records forced w :=
  have ⟨own, hown, hforce⟩ := h
  ⟨own, decide_congr heq hown, hforce⟩

/-- Decisions in dependency order are those that each node asks for under the verdicts on all. This
no longer speaks of the order, but for that of the plans. -/
theorem decideAll_eq_ok_iff (ho : Ordered order) :
    decideAll records forced .empty order = .ok plans ↔
      plans.map (·.node) = order ∧
        ∀ p ∈ plans, p.MadeUnder records forced (Verdicts.ofPlans plans) := by
  induction order using List.reverseRecOn generalizing plans with
  | nil =>
    rw [List.map_eq_nil_iff]
    constructor
    · intro h
      obtain rfl := Except.ok.inj h
      simp
    · rintro ⟨rfl, -⟩
      rfl
  | append_singleton order last ih =>
    rw [decideAll_concat]
    constructor
    · rintro ⟨before, own, hbefore, hown, rfl⟩
      obtain ⟨hnodes, hmade⟩ := (ih ho.prefix_concat).1 hbefore
      have hlast : (own.force (forced.get? last.id)).node = last := by
        rw [force_node, decide_node hown]
      refine ⟨by rw [List.map_append, hnodes, List.map_singleton, hlast], fun p hp => ?_⟩
      rw [Verdicts.ofPlans_concat, hlast]
      rcases List.mem_append.1 hp with hp | hp
      · have hmem : p.node ∈ order := hnodes ▸ List.mem_map_of_mem hp
        exact (hmade p hp).congr fun id hid => Verdicts.get?_insert_of_mem ho hmem hid _
      · obtain rfl := List.mem_singleton.1 hp
        refine ⟨own, ?_, by rw [hlast]⟩
        rw [hlast]
        exact decide_congr (fun id hid => Verdicts.get?_insert_of_last ho hid _) hown
    · rintro ⟨hnodes, hmade⟩
      obtain ⟨before, lasts, rfl, hbefore, hlasts⟩ := List.map_eq_append_iff.1 hnodes
      obtain ⟨q, rfl, rfl⟩ := List.map_eq_singleton_iff.1 hlasts
      rw [Verdicts.ofPlans_concat] at hmade
      have hmadeBefore : ∀ p ∈ before, p.MadeUnder records forced (Verdicts.ofPlans before) := by
        intro p hp
        have hmem : p.node ∈ order := hbefore ▸ List.mem_map_of_mem hp
        exact (hmade p (List.mem_append_left _ hp)).congr fun id hid =>
          (Verdicts.get?_insert_of_mem ho hmem hid _).symm
      obtain ⟨own, hown, hforce⟩ := hmade q (List.mem_append_right _ (List.mem_singleton_self q))
      refine ⟨before, own, (ih ho.prefix_concat).2 ⟨hbefore, hmadeBefore⟩, ?_, by rw [hforce]⟩
      exact decide_congr (fun id hid => (Verdicts.get?_insert_of_last ho hid _).symm) hown

/-- In whatever dependency order nodes are decided on, each comes to the same. -/
theorem decideAll_perm (ho : Ordered order) (ho' : Ordered order') (hperm : order.Perm order')
    (h : decideAll records forced .empty order = .ok plans) :
    ∃ plans', decideAll records forced .empty order' = .ok plans' ∧ plans.Perm plans' := by
  obtain ⟨rfl, hmade⟩ := (decideAll_eq_ok_iff ho).1 h
  obtain ⟨plans', rfl, hplans⟩ :
      Relation.Comp (· = List.map NodePlan.node ·) List.Perm order' plans := by
    rw [List.eq_map_comp_perm]
    exact hperm.symm
  have hnodup : (plans.map (·.node.id)).Nodup := by
    have := ho.nodup
    rwa [List.map_map] at this
  refine ⟨plans', (decideAll_eq_ok_iff ho').2 ⟨rfl, fun p hp => ?_⟩, hplans.symm⟩
  rw [← Verdicts.ofPlans_perm hplans.symm hnodup]
  exact hmade p (hplans.mem_iff.1 hp)

end NodePlan

/-! ## What is asked of a graph -/

namespace Graph

variable {g g' : Graph} {id : String}

theorem contains_perm (hnodes : g.nodes.Perm g'.nodes) : g.contains id = g'.contains id := by
  rw [Bool.eq_iff_iff, contains_iff, contains_iff, ids_eq, ids_eq, (hnodes.map _).mem_iff]

theorem node?_perm (hnodes : g.nodes.Perm g'.nodes) (hg : g.ids.Nodup) (hg' : g'.ids.Nodup) :
    g.node? id = g'.node? id := by
  ext node
  rw [node?_eq_some_iff hg, node?_eq_some_iff hg', hnodes.mem_iff]

/-- A node depends on the same nodes, listed in another order. -/
theorem Linked.dependencies_perm (hg : g.Linked) (hg' : g'.Linked)
    (hnodes : g.nodes.Perm g'.nodes) : (g.dependencies id).Perm (g'.dependencies id) := by
  refine (List.perm_ext_iff_of_nodup (hg.coherent.nodup_dependencies id)
    (hg'.coherent.nodup_dependencies id)).2 fun dependency => ?_
  rw [← hg.dependsIn_iff, ← hg'.dependsIn_iff, DependsIn, DependsIn]
  exact exists_congr fun node => and_congr_left fun _ => hnodes.mem_iff

end Graph

theorem Doomed.ofPlans_perm {g g' : Graph} {plans plans' : List NodePlan}
    (hnodes : g.nodes.Perm g'.nodes) (hperm : plans.Perm plans')
    (hnodup : (plans.map (·.node.id)).Nodup) (records : Table Record) :
    ofPlans g records plans = ofPlans g' records plans' := by
  have horphans : orphans g records = orphans g' records := by
    simp only [orphans, Graph.contains_perm hnodes]
  rw [ofPlans, ofPlans, horphans]
  exact Table.foldl_insert_perm (hperm.filter _)
    (hnodup.sublist (List.filter_sublist.map _)) _

/-- Deletions spread by the records, and ask of a graph only what its nodes are. -/
theorem Cascade.forcedBy_congr_graph {g g' : Graph} (h : ∀ id, g.node? id = g'.node? id)
    (s : State) (doomed : Doomed) : forcedBy g s doomed = forcedBy g' s doomed := by
  have hvisit : visit g doomed = visit g' doomed := by
    funext c r
    rw [visit, visit, h]
  have hspread : ∀ fuel c, spread g s doomed fuel c = spread g' s doomed fuel c := by
    intro fuel
    induction fuel with
    | zero => exact fun _ => rfl
    | succ fuel ih =>
      intro c
      rw [spread, spread, pass, pass, hvisit, ih]
  rw [forcedBy, forcedBy, hspread]

/-! ## Rounds -/

namespace Synthesis

variable {g g' : Graph} {order order' : List Node} {prior : Option State} {forced : Table String}
  {settlement : Settlement}

/-- Dependency orders of two graphs that have the same nodes. -/
structure Reordered (g g' : Graph) (order order' : List Node) : Prop where
  linked : g.Linked
  linked' : g'.Linked
  nodes : g.nodes.Perm g'.nodes
  sorted : g.sortedNodes = .ok order
  sorted' : g'.sortedNodes = .ok order'
  ordered : Ordered order
  ordered' : Ordered order'
  perm : order.Perm order'

theorem Reordered.exists_orders (hg : g.Linked) (hg' : g'.Linked)
    (hnodes : g.nodes.Perm g'.nodes) : ∃ order order', Reordered g g' order order' := by
  obtain ⟨order, hsorted, hperm, hordered⟩ := hg.sortedNodes
  obtain ⟨order', hsorted', hperm', hordered'⟩ := hg'.sortedNodes
  exact ⟨order, order', hg, hg', hnodes, hsorted, hsorted', hordered, hordered',
    (hperm.trans hnodes).trans hperm'.symm⟩

theorem Reordered.symm (h : Reordered g g' order order') : Reordered g' g order' order :=
  ⟨h.linked', h.linked, h.nodes.symm, h.sorted', h.sorted, h.ordered', h.ordered, h.perm.symm⟩

/-- Whether two settlements have the same decisions, listed in two orders. -/
def Settlement.Reorders (settlement other : Settlement) : Prop :=
  settlement.plans.Perm other.plans ∧ settlement.doomed = other.doomed

/-- A round comes to the same decisions in every order, and forces the same. -/
theorem round_perm (h : Reordered g g' order order') {further : Table String}
    (hround : round g order prior forced = .ok (settlement, further)) :
    ∃ other, round g' order' prior forced = .ok (other, further) ∧ settlement.Reorders other := by
  obtain ⟨plans, hplans, rfl, rfl⟩ := round_eq_ok_iff.1 hround
  obtain ⟨plans', hplans', hperm⟩ := NodePlan.decideAll_perm h.ordered h.ordered' h.perm hplans
  have hnodup : (plans.map (·.node.id)).Nodup := by
    have := h.ordered.nodup
    rwa [← NodePlan.decideAll_nodes hplans, List.map_map] at this
  have hdoomed := Doomed.ofPlans_perm h.nodes hperm hnodup (recordsOf prior)
  have hforces : ∀ s doomed, Cascade.forcedBy g s doomed = Cascade.forcedBy g' s doomed :=
    Cascade.forcedBy_congr_graph fun id =>
      Graph.node?_perm h.nodes h.linked.coherent.nodup h.linked'.coherent.nodup
  refine ⟨_, round_eq_ok_iff.2 ⟨plans', hplans', rfl, ?_⟩, hperm, hdoomed⟩
  simp only [hdoomed, hforces]

/-- So deciding settles in every order, and on the same. -/
theorem settle_perm (h : Reordered g g' order order') {fuel : Nat}
    (hsettled : settle g order prior fuel forced = .ok (some settlement)) :
    ∃ other, settle g' order' prior fuel forced = .ok (some other) ∧
      settlement.Reorders other := by
  induction fuel generalizing forced with
  | zero => cases hsettled
  | succ fuel ih =>
    rw [settle] at hsettled
    obtain ⟨⟨found, further⟩, hfound, hrest⟩ := bind_eq_ok_iff.1 hsettled
    obtain ⟨other, hother, hreorders⟩ := round_perm h hfound
    rw [settle, hother]
    by_cases hempty : further.isEmpty = true
    · obtain rfl := Option.some.inj (Except.ok.inj ((if_pos hempty).symm.trans hrest))
      exact ⟨other, if_pos hempty, hreorders⟩
    · obtain ⟨last, hlast, hreorders⟩ := ih ((if_neg hempty).symm.trans hrest)
      exact ⟨last, (if_neg hempty).trans hlast, hreorders⟩

theorem outcome_perm (h : Reordered g g' order order')
    (houtcome : outcome g order prior = some (.ok settlement)) :
    ∃ other, outcome g' order' prior = some (.ok other) ∧ settlement.Reorders other := by
  obtain ⟨fuel, hsettled⟩ := outcome_eq_ok_iff.1 houtcome
  obtain ⟨other, hother, hreorders⟩ := settle_perm h hsettled
  exact ⟨other, outcome_eq_ok_iff.2 ⟨fuel, hother⟩, hreorders⟩

/-- Where there is a plan for one order there is one for the other: it has the same deletions, and
then steps for the same decisions. -/
theorem exists_synthesize_perm (h : Reordered g g' order order') {now : Instant} {plan : Plan}
    (hplan : Plan.synthesize g prior now = .ok plan) (now' : Instant) :
    ∃ plan' deletions plans plans', Plan.synthesize g' prior now' = .ok plan' ∧
      plans.Perm plans' ∧ (∀ step ∈ deletions, step.action = .delete) ∧
      plan.steps = deletions ++
        stepsFor g (indicesByNode deletions) .empty deletions.length plans ∧
      plan'.steps = deletions ++
        stepsFor g' (indicesByNode deletions) .empty deletions.length plans' := by
  obtain ⟨found, settlement, deletions, hfound, houtcome, hremoval, rfl⟩ :=
    synthesize_eq_ok_iff.1 hplan
  obtain rfl := Except.ok.inj (h.sorted.symm.trans hfound)
  obtain ⟨other, hother, hperm, hdoomed⟩ := outcome_perm h houtcome
  refine ⟨_, deletions, settlement.plans, other.plans,
    synthesize_eq_ok_iff.2 ⟨order', other, deletions, h.sorted', hother, hdoomed ▸ hremoval, rfl⟩,
    hperm, ?_, rfl, rfl⟩
  rcases hremoval with ⟨-, rfl⟩ | ⟨s, -, hdeletions⟩
  · simp
  · exact fun step hstep => (Removal.bare_of_mem_steps hdeletions hstep).1

end Synthesis

/-! ## Plans that differ in their layout -/

/-- What tells the steps of a plan apart. -/
def Step.key (step : Step) : String × Action := (step.nodeId, step.action)

namespace Plan

/-- The steps that delete. -/
def deletions (plan : Plan) : List Step := plan.steps.filter (·.action = .delete)

/-- The other steps. -/
def bringing (plan : Plan) : List Step := plan.steps.filter (·.action ≠ .delete)

/-- The steps that a step waits for, by what tells them apart. -/
def awaited (plan : Plan) (step : Step) : List (Option (String × Action)) :=
  step.dependsOn.map fun i => plan.steps[i]?.map Step.key

/-- A step of one plan and one of another that are alike but for where they stand, for the order in
which they list the dependencies, and for the numbers of the steps that they wait for; those steps
are the same. -/
structure SameStep (plan plan' : Plan) (a b : Step) : Prop where
  same : b = { a with index := b.index, dependsOn := b.dependsOn, dependencies := b.dependencies }
  dependencies : a.dependencies.Perm b.dependencies
  awaited : (plan.awaited a).Perm (plan'.awaited b)

/-- Two plans with the same deletions, which have one more step for every node of a graph, the same
in both. -/
structure Rearranged (g : Graph) (plan plan' : Plan) : Prop where
  deletions : plan.deletions = plan'.deletions
  once : (plan.bringing.map (·.nodeId)).Nodup
  nodes : (plan.bringing.map (·.nodeId)).Perm g.ids
  nodes' : (plan'.bringing.map (·.nodeId)).Perm g.ids
  steps : ∀ a ∈ plan.bringing, ∀ b ∈ plan'.bringing, a.nodeId = b.nodeId →
    SameStep plan plan' a b

variable {g : Graph} {records : Table Record} {plan : Plan} {ds rs : List Step} {step : Step}

theorem deletions_eq (hsteps : plan.steps = ds ++ rs) (hds : ∀ step ∈ ds, step.action = .delete)
    (hrs : ∀ step ∈ rs, step.action ≠ .delete) : plan.deletions = ds := by
  rw [deletions, hsteps, List.filter_append, List.filter_eq_self.2 (by simpa using hds),
    List.filter_eq_nil_iff.2 (by simpa using hrs), List.append_nil]

theorem bringing_eq (hsteps : plan.steps = ds ++ rs) (hds : ∀ step ∈ ds, step.action = .delete)
    (hrs : ∀ step ∈ rs, step.action ≠ .delete) : plan.bringing = rs := by
  rw [bringing, hsteps, List.filter_append, List.filter_eq_nil_iff.2 (by simpa using hds),
    List.filter_eq_self.2 (by simpa using hrs), List.nil_append]

namespace Covers

theorem action_ne_delete (h : plan.Covers g records ds rs) (hstep : step ∈ rs) :
    step.action ≠ .delete := by
  intro hdelete
  rcases h.brings step hstep with haction | haction | haction <;> cases hdelete.symm.trans haction

/-- Which steps a plan has is enough to know which of them delete. -/
theorem split (h : plan.Covers g records ds rs) :
    plan.Covers g records plan.deletions plan.bringing := by
  rwa [deletions_eq h.steps h.deletes fun _ => h.action_ne_delete,
    bringing_eq h.steps h.deletes fun _ => h.action_ne_delete]

theorem eq_of_key (h : plan.Covers g records ds rs) {a b : Step} (ha : a ∈ plan.steps)
    (hb : b ∈ plan.steps) (hkey : a.key = b.key) : a = b := by
  obtain ⟨hid, haction⟩ := Prod.mk.inj hkey
  rw [h.steps] at ha hb
  rcases List.mem_append.1 ha with ha | ha <;> rcases List.mem_append.1 hb with hb | hb
  · exact List.inj_on_of_nodup_map h.deletesOnce ha hb hid
  · exact absurd (haction.symm.trans (h.deletes a ha)) (h.action_ne_delete hb)
  · exact absurd (haction.trans (h.deletes b hb)) (h.action_ne_delete ha)
  · exact List.inj_on_of_nodup_map h.once ha hb hid

/-- A step waits for those of what its node depends on, and for the one that deletes its node. -/
theorem mem_awaited (h : plan.Covers g records ds rs) (hstep : step ∈ rs)
    {key : Option (String × Action)} : key ∈ plan.awaited step ↔
      ∃ k ∈ plan.steps.map Step.key, some k = key ∧
        ((k.2 ≠ .delete ∧ k.1 ∈ g.dependencies step.nodeId) ∨
          (k.2 = .delete ∧ k.1 = step.nodeId)) := by
  simp only [awaited, List.mem_map, h.waits step hstep]
  constructor
  · rintro ⟨i, ⟨other, hother, hwaits⟩, rfl⟩
    exact ⟨_, ⟨other, List.mem_of_getElem? hother, rfl⟩, by rw [hother]; rfl, hwaits⟩
  · rintro ⟨_, ⟨other, hother, rfl⟩, rfl, hwaits⟩
    obtain ⟨i, hi⟩ := List.mem_iff_getElem?.1 hother
    exact ⟨i, ⟨other, hi, hwaits⟩, by rw [hi]; rfl⟩

theorem nodup_awaited (h : plan.Covers g records ds rs) (hstep : step ∈ rs) :
    (plan.awaited step).Nodup := by
  refine List.Nodup.map_on (fun i hi j hj heq => ?_) ((h.increasing step hstep).imp Nat.ne_of_lt)
  obtain ⟨a, ha, -⟩ := (h.waits step hstep i).1 hi
  obtain ⟨b, hb, -⟩ := (h.waits step hstep j).1 hj
  rw [ha, hb] at heq
  have hsame := h.eq_of_key (List.mem_of_getElem? ha) (List.mem_of_getElem? hb)
    (Option.some.inj heq)
  rw [← h.index ha, ← h.index hb, hsame]

end Covers

end Plan

/-! ## The steps of the same decisions -/

namespace Synthesis

variable {g g' : Graph} {order order' : List Node} {prior : Option State}
  {deleted placed : Table Nat}
  {next : Nat} {plans : List NodePlan} {plan plan' : Plan} {now now' : Instant}

/-- The steps of one decision in two plans agree but for where they stand, for the order in which
they list the dependencies, and for the numbers of the steps that they wait for. -/
theorem stepFor_eq (g g' : Graph) (deleted placed placed' : Table Nat) (i j : Nat)
    (p : NodePlan) : stepFor g' deleted placed' j p =
      { stepFor g deleted placed i p with
        index := (stepFor g' deleted placed' j p).index
        dependsOn := (stepFor g' deleted placed' j p).dependsOn
        dependencies := (stepFor g' deleted placed' j p).dependencies } := by
  simp only [stepFor]
  split <;> rfl

theorem keys_stepsFor : (stepsFor g deleted placed next plans).map Step.key =
    plans.map fun p => (p.node.id, p.decision.action) := by
  induction plans generalizing placed next with
  | nil => rfl
  | cons p plans ih =>
    rw [stepsFor, List.map_cons, List.map_cons, ih, Step.key, stepFor_nodeId, stepFor_action]

theorem nodeIds_stepsFor :
    (stepsFor g deleted placed next plans).map (·.nodeId) = plans.map (·.node.id) := by
  have hfst := congrArg (List.map Prod.fst) (@keys_stepsFor g deleted placed next plans)
  rwa [List.map_map, List.map_map] at hfst

theorem exists_of_mem_stepsFor {step : Step} (h : step ∈ stepsFor g deleted placed next plans) :
    ∃ p ∈ plans, ∃ placed' i, stepFor g deleted placed' i p = step := by
  obtain ⟨i, hi⟩ := List.mem_iff_getElem?.1 h
  rw [getElem?_stepsFor] at hi
  obtain ⟨p, hp, rfl⟩ := Option.map_eq_some_iff.1 hi
  exact ⟨p, List.mem_of_getElem? hp, _, _, rfl⟩

theorem action_ne_delete_of_mem {step : Step}
    (h : step ∈ stepsFor g deleted placed next plans) : step.action ≠ .delete := by
  obtain ⟨p, -, placed', i, rfl⟩ := exists_of_mem_stepsFor h
  rw [stepFor_action]
  exact Origin.action_ne_delete _

theorem covers_of_linked (hg : g.Linked) (hprior : ∀ s, prior = some s → s.KeysMatch)
    (hplan : Plan.synthesize g prior now = .ok plan) :
    plan.Covers g (recordsOf prior) plan.deletions plan.bringing := by
  obtain ⟨order, forced, plans, deletions, horigin⟩ :=
    Origin.exists_of_synthesize hg hprior hplan
  exact (horigin.covers hg).split

/-- The plans for two orders of the same nodes differ in their layout alone. -/
theorem Reordered.rearranged (h : Reordered g g' order order')
    (hprior : ∀ s, prior = some s → s.KeysMatch)
    (hplan : Plan.synthesize g prior now = .ok plan)
    (hplan' : Plan.synthesize g' prior now' = .ok plan') : plan.Rearranged g plan' := by
  obtain ⟨found, deletions, plans, plans', hfound, hperm, hdelete, hsteps, hsteps'⟩ :=
    exists_synthesize_perm h hplan now'
  obtain rfl := Except.ok.inj (hfound.symm.trans hplan')
  have hcovers := covers_of_linked h.linked hprior hplan
  have hcovers' := covers_of_linked h.linked' hprior hplan'
  have hbringing := Plan.bringing_eq hsteps hdelete fun _ => action_ne_delete_of_mem
  have hbringing' := Plan.bringing_eq hsteps' hdelete fun _ => action_ne_delete_of_mem
  have hids : g'.ids.Perm g.ids := by
    rw [Graph.ids_eq, Graph.ids_eq]
    exact h.nodes.symm.map _
  have hkeys : (plan.steps.map Step.key).Perm (found.steps.map Step.key) := by
    rw [hsteps, hsteps', List.map_append, List.map_append, keys_stepsFor, keys_stepsFor]
    exact (hperm.map _).append_left _
  refine ⟨?_, hcovers.once, hcovers.everyNode, hcovers'.everyNode.trans hids, ?_⟩
  · rw [Plan.deletions_eq hsteps hdelete fun _ => action_ne_delete_of_mem,
      Plan.deletions_eq hsteps' hdelete fun _ => action_ne_delete_of_mem]
  intro a ha b hb hid
  have hawaited : (plan.awaited a).Perm (found.awaited b) := by
    refine (List.perm_ext_iff_of_nodup (hcovers.nodup_awaited ha)
      (hcovers'.nodup_awaited hb)).2 fun key => ?_
    rw [hcovers.mem_awaited ha, hcovers'.mem_awaited hb]
    simp only [hkeys.mem_iff, hid, (h.linked.dependencies_perm h.linked' h.nodes).mem_iff]
  -- The two steps come from one decision.
  obtain ⟨p, hp, placed, i, rfl⟩ := exists_of_mem_stepsFor (hbringing ▸ ha)
  obtain ⟨q, hq, placed', j, rfl⟩ := exists_of_mem_stepsFor (hbringing' ▸ hb)
  rw [stepFor_nodeId, stepFor_nodeId] at hid
  have honce : (plans.map (·.node.id)).Nodup := by
    have := hcovers.once
    rwa [hbringing, nodeIds_stepsFor] at this
  obtain rfl := List.inj_on_of_nodup_map honce hp (hperm.mem_iff.2 hq) hid
  refine ⟨stepFor_eq .., ?_, hawaited⟩
  rw [stepFor_dependencies, stepFor_dependencies]
  exact h.linked.dependencies_perm h.linked' h.nodes

/-- A plan that is not found fails for a reason of its own, and not because deciding does not
end. -/
theorem ne_internal_of_synthesize (hg : g.Linked) (hprior : ∀ s, prior = some s → s.KeysMatch)
    {cause : Error} (hfails : Plan.synthesize g prior now = .error cause) (text : String) :
    cause ≠ .internal text := by
  rintro rfl
  rcases bind_eq_error_iff.1 hfails with hsteps | ⟨_, -, hdone⟩
  case inr => cases hdone
  obtain ⟨order, hsorted, -⟩ := hg.sortedNodes
  obtain ⟨result, houtcome, -⟩ := outcome_ends hg hprior hsorted
  rcases bind_eq_error_iff.1 hsteps with horder | ⟨order', horder, hsteps⟩
  · obtain ⟨_, -, hcause⟩ := mapError_eq_error_iff.1 horder
    cases hcause
  obtain rfl := Except.ok.inj (hsorted.symm.trans (mapError_eq_ok_iff.1 horder))
  rw [houtcome] at hsteps
  rcases bind_eq_error_iff.1 hsteps with hfails | ⟨settlement, -, hsteps⟩
  · obtain ⟨_, -, hcause⟩ := mapError_eq_error_iff.1 hfails
    cases hcause
  cases prior with
  | none => cases hsteps
  | some s =>
    rcases bind_eq_error_iff.1 hsteps with hfails | ⟨_, -, hdone⟩
    · obtain ⟨_, -, hcause⟩ := mapError_eq_error_iff.1 hfails
      cases hcause
    · cases hdone

end Synthesis

namespace Plan

variable {declarations declarations' : List Declaration} {prior : Option State}

/-- Declarations that differ in the order of resources and ports alone are both accepted or both
refused; then there is a plan for both or for neither, as deciding ends for both; and the two plans
differ in their layout alone. The fingerprint of the configuration is not compared: it is taken over
the nodes in the order of their declaration. -/
theorem synthesize_rearranged (h : Graph.Rearranged declarations declarations')
    (hprior : ∀ s, prior = some s → s.KeysMatch) (now now' : Instant) :
    (∃ g g', Graph.ofDeclarations declarations = .ok g ∧
        Graph.ofDeclarations declarations' = .ok g' ∧
        ((∃ plan plan', synthesize g prior now = .ok plan ∧ synthesize g' prior now' = .ok plan' ∧
            plan.Rearranged g plan') ∨
          ∃ cause cause', synthesize g prior now = .error cause ∧
            synthesize g' prior now' = .error cause' ∧
            ∀ text, cause ≠ .internal text ∧ cause' ≠ .internal text)) ∨
      ∃ cause cause', Graph.ofDeclarations declarations = .error cause ∧
        Graph.ofDeclarations declarations' = .error cause' := by
  cases hg : Graph.ofDeclarations declarations with
  | error cause =>
    refine .inr ⟨cause, ?_⟩
    cases hg' : Graph.ofDeclarations declarations' with
    | error cause' => exact ⟨cause', rfl, rfl⟩
    | ok g' =>
      obtain ⟨g, hok⟩ := h.accepted_iff.2 ⟨g', hg'⟩
      cases hok.symm.trans hg
  | ok g =>
    obtain ⟨g', hg'⟩ := h.accepted_iff.1 ⟨g, hg⟩
    have hlinked := Graph.Linked.ofDeclarations hg
    have hlinked' := Graph.Linked.ofDeclarations hg'
    obtain ⟨order, order', hreordered⟩ :=
      Synthesis.Reordered.exists_orders hlinked hlinked' (h.nodes_perm hg hg')
    refine .inl ⟨g, g', rfl, hg', ?_⟩
    cases hplan : synthesize g prior now with
    | ok plan =>
      obtain ⟨plan', -, -, -, hplan', -⟩ :=
        Synthesis.exists_synthesize_perm hreordered hplan now'
      exact .inl ⟨plan, plan', rfl, hplan', hreordered.rearranged hprior hplan hplan'⟩
    | error cause =>
      refine .inr ⟨cause, ?_⟩
      cases hplan' : synthesize g' prior now' with
      | ok plan' =>
        obtain ⟨plan, -, -, -, hok, -⟩ :=
          Synthesis.exists_synthesize_perm hreordered.symm hplan' now
        cases hok.symm.trans hplan
      | error cause' =>
        exact ⟨cause', rfl, rfl, fun text =>
          ⟨Synthesis.ne_internal_of_synthesize hlinked hprior hplan text,
            Synthesis.ne_internal_of_synthesize hlinked' hprior hplan' text⟩⟩

/-- A service that exposes ports, and what its target groups, ingress rules and listeners need. -/
def exposedDeclarations (ports : List Port) : List Declaration := [
  { id := "net", kind := .network },
  { id := "sg", kind := .securityGroup },
  { id := "lb", kind := .loadBalancer },
  { id := "web", kind := .service, expose := some {
      container := "app", network := "net", securityGroup := "sg", loadBalancer := "lb", ports } }]

/-- A target group that was recorded with another port, which it cannot change, the listener that
was recorded as depending on it, and a log sink that is no longer declared. -/
def exposedState : State :=
  { State.new "shop" "test" ⟨0, 0⟩ with
    resources := .ofList [
      ("TargetGroup80", { Record.new "TargetGroup80" .targetGroup "tg-1" ⟨0, 0⟩ with
        attributes := .ofList [("port", .natural 81)] }),
      ("Listener80", { Record.new "Listener80" .listener "li-1" ⟨0, 0⟩ with
        dependencies := ["TargetGroup80"], sequence := 1 }),
      ("old", { Record.new "old" .logSink "lo-1" ⟨0, 0⟩ with sequence := 2 })] }

/-- Node, action and numbers of the steps waited for, of every step. -/
def outline (steps : List Step) : List (String × Action × List Nat) :=
  steps.map fun step => (step.nodeId, step.action, step.dependsOn)

/-- What is planned for the two ports in increasing order. -/
def exposedOutline : List (String × Action × List Nat) := [
  ("old", .delete, []), ("Listener80", .delete, []), ("TargetGroup80", .delete, [1]),
  ("net", .create, []), ("sg", .create, []), ("lb", .create, []), ("web", .create, []),
  ("TargetGroup80", .create, [2, 3, 6]), ("Listener80", .create, [1, 5, 7]),
  ("IngressRule80", .create, [4]), ("TargetGroup443", .create, [3, 6]),
  ("Listener443", .create, [5, 10]), ("IngressRule443", .create, [4])]

/-- What is planned for the same declarations in reverse, the ports as well. -/
def reversedOutline : List (String × Action × List Nat) := [
  ("old", .delete, []), ("Listener80", .delete, []), ("TargetGroup80", .delete, [1]),
  ("web", .create, []), ("lb", .create, []), ("sg", .create, []),
  ("IngressRule443", .create, [5]), ("IngressRule80", .create, [5]), ("net", .create, []),
  ("TargetGroup443", .create, [3, 8]), ("Listener443", .create, [4, 9]),
  ("TargetGroup80", .create, [2, 3, 8]), ("Listener80", .create, [1, 4, 11])]

/-- With the declarations reversed, and the two ports as well, the deletions are the same, and every
other step stands elsewhere and waits for the same. -/
theorem synthesize_rearranged_exposed :
    Graph.Rearranged (exposedDeclarations [{ number := 80 }, { number := 443 }])
        (exposedDeclarations [{ number := 443 }, { number := 80 }]).reverse ∧
      exposedState.KeysMatch ∧
      ∃ g g' plan plan',
        Graph.ofDeclarations (exposedDeclarations [{ number := 80 }, { number := 443 }]) = .ok g ∧
        Graph.ofDeclarations (exposedDeclarations [{ number := 443 }, { number := 80 }]).reverse =
          .ok g' ∧
        synthesize g (some exposedState) ⟨0, 0⟩ = .ok plan ∧
        synthesize g' (some exposedState) ⟨0, 0⟩ = .ok plan' ∧ plan.Rearranged g plan' ∧
        outline plan.steps = exposedOutline ∧ outline plan'.steps = reversedOutline := by
  have hrearranged : Graph.Rearranged
      (exposedDeclarations [{ number := 80 }, { number := 443 }])
      (exposedDeclarations [{ number := 443 }, { number := 80 }]).reverse := by
    refine ⟨_, (List.reverse_perm _).symm, ?_⟩
    refine .cons ⟨rfl, .some ⟨rfl, by decide⟩⟩ ?_
    exact .cons ⟨rfl, .none⟩ (.cons ⟨rfl, .none⟩ (.cons ⟨rfl, .none⟩ .nil))
  have hkeys : exposedState.KeysMatch := by decide +kernel
  have hsteps : ((Graph.ofDeclarations
        (exposedDeclarations [{ number := 80 }, { number := 443 }]) >>= fun g =>
      Synthesis.steps g (some exposedState)).toOption.map outline) = some exposedOutline := by
    decide +kernel
  have hsteps' : ((Graph.ofDeclarations
        (exposedDeclarations [{ number := 443 }, { number := 80 }]).reverse >>= fun g =>
      Synthesis.steps g (some exposedState)).toOption.map outline) = some reversedOutline := by
    decide +kernel
  obtain ⟨steps, hok, hlisted⟩ := Option.map_eq_some_iff.1 hsteps
  obtain ⟨steps', hok', hlisted'⟩ := Option.map_eq_some_iff.1 hsteps'
  obtain ⟨g, hg, hok⟩ := bind_eq_ok_iff.1 (toOption_eq_some_iff.1 hok)
  obtain ⟨g', hg', hok'⟩ := bind_eq_ok_iff.1 (toOption_eq_some_iff.1 hok')
  have hplan : synthesize g (some exposedState) ⟨0, 0⟩ =
      .ok { createdAt := ⟨0, 0⟩, configHash := Fingerprint.ofGraph g, steps } :=
    bind_eq_ok_iff.2 ⟨steps, hok, rfl⟩
  have hplan' : synthesize g' (some exposedState) ⟨0, 0⟩ =
      .ok { createdAt := ⟨0, 0⟩, configHash := Fingerprint.ofGraph g', steps := steps' } :=
    bind_eq_ok_iff.2 ⟨steps', hok', rfl⟩
  refine ⟨hrearranged, hkeys, g, g', _, _, hg, hg', hplan, hplan', ?_, hlisted, hlisted'⟩
  obtain ⟨_, _, hsame, hsame', ⟨_, _, hfound, hfound', hlayout⟩ | ⟨_, _, hfails, -⟩⟩ |
      ⟨_, _, hfails, -⟩ :=
    synthesize_rearranged hrearranged (fun s hs => Option.some.inj hs ▸ hkeys) ⟨0, 0⟩ ⟨0, 0⟩
  · obtain rfl := Except.ok.inj (hg.symm.trans hsame)
    obtain rfl := Except.ok.inj (hg'.symm.trans hsame')
    obtain rfl := Except.ok.inj (hplan.symm.trans hfound)
    obtain rfl := Except.ok.inj (hplan'.symm.trans hfound')
    exact hlayout
  · obtain rfl := Except.ok.inj (hg.symm.trans hsame)
    cases hplan.symm.trans hfails
  · cases hg.symm.trans hfails

end Plan

end Converge
