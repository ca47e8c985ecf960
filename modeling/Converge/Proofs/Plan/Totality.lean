import Converge.Proofs.Graph.Acyclic
import Converge.Proofs.Plan.Termination
import Converge.Proofs.Plan.Unresolved

/-!
# When there is a plan

If no resource was recorded as depending on itself, directly or not, then what is doomed can be put
in an order, and deciding settles. So there is a plan to remove everything, and one for what a graph
declares unless a reference cannot be resolved.

Main statements: `Removal.exists_steps_iff`, `Plan.exists_synthesizeDestroy` and
`Plan.unresolved_of_synthesize`.
-/

namespace Converge

open Relation (TransGen)
open Graph (Ordered)

/-! ## Recorded dependencies -/

namespace Recorded

/-- Whether a resource was recorded as depending on another that is recorded as well. -/
def Depends (records : Table Record) (id dependency : String) : Prop :=
  ∃ r, records.get? id = some r ∧ dependency ∈ r.dependencies ∧
    records.contains dependency = true

/-- Whether no resource was recorded as depending on itself, directly or not. -/
def Acyclic (records : Table Record) : Prop := ∀ id, ¬ TransGen (Depends records) id id

theorem acyclic_empty : Acyclic .empty := by
  intro id hcycle
  obtain ⟨other, ⟨r, hr, -⟩, -⟩ := TransGen.head'_iff.1 hcycle
  cases hr

end Recorded

/-! ## The order of what goes -/

namespace Removal

variable {s : State} {doomed : Doomed} {g : Graph}

theorem exists_addRecords {rs : List Record} (hnodup : (rs.map (·.id)).Nodup)
    (hnew : ∀ r ∈ rs, r.id ∉ g.ids) :
    ∃ g', rs.foldlM addRecord g = .ok g' ∧ g'.ids = g.ids ++ rs.map (·.id) := by
  induction rs generalizing g with
  | nil => exact ⟨g, rfl, by simp⟩
  | cons r rs ih =>
    obtain ⟨hfirst, hrest⟩ := List.nodup_cons.1 hnodup
    let node : Node := { id := r.id, kind := r.kind }
    have hnode : node.id ∉ g.ids := hnew r (List.mem_cons_self ..)
    obtain ⟨next, hnext, hids⟩ := Graph.exists_addNode hnode
    obtain ⟨g', hg', hids'⟩ := ih (g := next) hrest fun r' hr' => by
      rw [hids, List.mem_append, List.mem_singleton, not_or]
      exact ⟨hnew r' (List.mem_cons_of_mem _ hr'),
        fun heq => hfirst (List.mem_map.2 ⟨r', hr', heq⟩)⟩
    refine ⟨g', by rw [List.foldlM_cons]; exact bind_eq_ok_iff.2 ⟨next, hnext, hg'⟩, ?_⟩
    rw [hids', hids, List.append_assoc]
    rfl

theorem exists_linkRecord {r : Record} (hr : r.id ∈ g.ids) :
    ∃ g', linkRecord g r = .ok g' ∧ g'.ids = g.ids := by
  refine exists_foldlM (P := fun g' : Graph => g'.ids = g.ids) rfl ?_
  intro g' dependency hdependency hids
  have hmem : dependency ∈ g.ids := Graph.contains_iff.1 (List.mem_filter.1 hdependency).2
  obtain ⟨next, hnext, hids'⟩ := Graph.exists_addEdge (g := g') (hids ▸ hr) (hids ▸ hmem)
  exact ⟨next, hnext, hids'.trans hids⟩

theorem exists_graph (hs : s.KeysMatch) (doomed : Doomed) : ∃ g, graph s doomed = .ok g := by
  have hnodup : ((records s doomed).map (·.id)).Nodup :=
    hs.nodup_ids.sublist ((List.filter_sublist ..).map _)
  obtain ⟨unlinked, hunlinked, hids⟩ :=
    exists_addRecords (g := .empty) hnodup fun r _ hmem => nomatch hmem
  have hmem : ∀ r ∈ records s doomed, r.id ∈ unlinked.ids := fun r hr => by
    rw [hids]
    exact List.mem_append_right _ (List.mem_map_of_mem hr)
  obtain ⟨g, hg, -⟩ := exists_foldlM (P := fun g : Graph => g.ids = unlinked.ids)
    (f := linkRecord) rfl fun g' r hr hids' => by
      obtain ⟨next, hnext, hsame⟩ := exists_linkRecord (g := g') (hids' ▸ hmem r hr)
      exact ⟨next, hnext, hsame.trans hids'⟩
  exact ⟨g, bind_eq_ok_iff.2 ⟨unlinked, hunlinked, hg⟩⟩

/-- There are steps that remove what is doomed just if none of it depends on itself, directly or
not. -/
theorem exists_steps_iff (hs : s.KeysMatch) : (∃ deletions, steps s doomed = .ok deletions) ↔
    ∀ id, ¬ TransGen (Depends s doomed) id id := by
  obtain ⟨g, hg⟩ := exists_graph hs doomed
  have hedges : (fun id dependency => dependency ∈ g.dependencies id) = Depends s doomed := by
    funext id dependency
    exact propext (mem_dependencies_iff hs hg)
  rw [← hedges]
  refine Iff.trans ?_ (Graph.exists_order_iff (graph_spec hg).1)
  constructor
  · rintro ⟨deletions, h⟩
    obtain ⟨g', hg', h⟩ := bind_eq_ok_iff.1 h
    obtain rfl := Except.ok.inj (hg.symm.trans hg')
    obtain ⟨order, horder, -⟩ := bind_eq_ok_iff.1 h
    exact ⟨order, horder⟩
  · rintro ⟨order, horder⟩
    exact ⟨_, bind_eq_ok_iff.2 ⟨g, hg, bind_eq_ok_iff.2 ⟨order, horder, rfl⟩⟩⟩

/-- Whatever is doomed, there are steps that remove it, if recorded dependencies are acyclic. -/
theorem exists_steps (hs : s.KeysMatch) (hacyclic : Recorded.Acyclic s.resources)
    (doomed : Doomed) : ∃ deletions, steps s doomed = .ok deletions := by
  refine (exists_steps_iff hs).2 fun id hcycle => hacyclic id (TransGen.mono ?_ id id hcycle)
  rintro id dependency ⟨-, ⟨-, hrecorded⟩, r, hr, hmem⟩
  exact ⟨r, hr, hmem, Table.contains_iff.2 hrecorded⟩

end Removal

/-- Whether deciding fails because of a reference that nothing brings. -/
def PlanError.IsUnresolved (cause : PlanError) : Prop :=
  ∃ nodeId name, cause = .unresolvedReference nodeId name

/-- Deciding fails for no other reason. -/
theorem NodePlan.unresolved_of_decideAll {records : Table Record} {forced : Table String}
    {order : List Node} {cause : PlanError}
    (h : decideAll records forced .empty order = .error cause) : cause.IsUnresolved := by
  obtain ⟨before, node, after, plans, -, -, hdecide⟩ := of_decideAll_eq_error h
  obtain ⟨-, name, value, r, hcause, -⟩ := of_decide_eq_error hdecide
  exact ⟨node.id, name, hcause⟩

/-! ## Plans -/

namespace Plan

/-- There is a plan to remove everything recorded. -/
theorem exists_synthesizeDestroy {s : State} (hs : s.KeysMatch)
    (hacyclic : Recorded.Acyclic s.resources) (now : Instant) :
    ∃ plan, synthesizeDestroy s now = .ok plan := by
  obtain ⟨deletions, hdeletions⟩ := Removal.exists_steps hs hacyclic (Doomed.everything s)
  exact ⟨_, bind_eq_ok_iff.2 ⟨deletions, mapError_eq_ok_iff.2 hdeletions, rfl⟩⟩

/-- There is a plan for what a graph declares, unless a reference cannot be resolved. -/
theorem unresolved_of_synthesize {g : Graph} {prior : Option State} {now : Instant} {cause : Error}
    (hg : g.Linked) (hprior : ∀ s, prior = some s → s.KeysMatch)
    (hacyclic : Recorded.Acyclic (Synthesis.recordsOf prior))
    (h : synthesize g prior now = .error cause) :
    ∃ inner, cause = .plan inner ∧ inner.IsUnresolved := by
  obtain ⟨order, hsorted, hperm, ho⟩ := hg.sortedNodes
  rcases bind_eq_error_iff.1 h with hsteps | ⟨_, -, hdone⟩
  case inr => cases hdone
  rcases bind_eq_error_iff.1 hsteps with horder | ⟨order', horder, hsteps⟩
  · obtain ⟨_, hfails, -⟩ := mapError_eq_error_iff.1 horder
    exact nomatch hsorted.symm.trans hfails
  obtain rfl := Except.ok.inj (hsorted.symm.trans (mapError_eq_ok_iff.1 horder))
  obtain ⟨result, houtcome, -⟩ := Synthesis.outcome_ends hg hprior hsorted
  rw [houtcome] at hsteps
  rcases bind_eq_error_iff.1 hsteps with hfails | ⟨settlement, -, hsteps⟩
  · obtain ⟨inner, rfl, rfl⟩ := mapError_eq_error_iff.1 hfails
    exact ⟨inner, rfl, NodePlan.unresolved_of_decideAll (Synthesis.outcome_eq_error_iff.1 houtcome)⟩
  cases prior with
  | none => cases hsteps
  | some s =>
    rcases bind_eq_error_iff.1 hsteps with hfails | ⟨_, -, hdone⟩
    case inr => cases hdone
    obtain ⟨_, hfails, -⟩ := mapError_eq_error_iff.1 hfails
    obtain ⟨deletions, hdeletions⟩ := Removal.exists_steps (hprior s rfl) hacyclic settlement.doomed
    exact nomatch hdeletions.symm.trans hfails

end Plan

end Converge
