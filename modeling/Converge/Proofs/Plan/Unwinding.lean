import Converge.Proofs.Graph.LeastOrder
import Converge.Proofs.Plan.Totality

/-!
# Removal in reverse

What goes can be put in an order, each resource after all that it was recorded as depending on,
just if the recorded dependencies among what goes are not cyclic. Of all such orders the deletions
go back through the one that comes first by the order of creation, and each waits for the deletions
of what depends on its resource. If nothing was recorded as depending on what was created later,
they go back through the order of creation itself.

Main statements: `Removal.exists_steps_iff` says when there are deletions, and
`Removal.steps_unwind` what they are.
-/

namespace Converge

open Relation (TransGen)

/-! ## The order of creation -/

theorem Record.CreatedBefore.asymm {a b : Record} (h : a.CreatedBefore b) :
    ¬ b.CreatedBefore a := by
  rintro (hlt' | ⟨heq', hid'⟩) <;> rcases h with hlt | ⟨heq, hid⟩
  · exact Nat.lt_asymm hlt hlt'
  · exact Nat.lt_irrefl _ (heq ▸ hlt')
  · exact Nat.lt_irrefl _ (heq' ▸ hlt)
  · exact String.lt_asymm hid hid'

namespace State

variable {s : State} {id other : String}

/-- Whether a resource was recorded as created before another. -/
def CreatedBefore (s : State) (id other : String) : Prop :=
  ∃ a b, s.get? id = some a ∧ s.get? other = some b ∧ a.CreatedBefore b

/-- Whether a resource was recorded under a smaller number than another. -/
def Earlier (s : State) (id other : String) : Prop :=
  ∃ a b, s.get? id = some a ∧ s.get? other = some b ∧ a.sequence < b.sequence

theorem CreatedBefore.asymm (h : s.CreatedBefore id other) : ¬ s.CreatedBefore other id := by
  obtain ⟨a, b, ha, hb, hbefore⟩ := h
  rintro ⟨b', a', hb', ha', hbefore'⟩
  obtain rfl := Option.some.inj (ha.symm.trans ha')
  obtain rfl := Option.some.inj (hb.symm.trans hb')
  exact hbefore.asymm hbefore'

end State

namespace Removal

variable {s : State} {doomed : Doomed} {g : Graph} {ids : List String} {deletions : List Step}

/-! ## Orders of what goes -/

/-- Whether a list gives all that goes once, each after what it was recorded as depending on. -/
structure IsOrder (s : State) (doomed : Doomed) (ids : List String) : Prop where
  nodup : ids.Nodup
  mem : ∀ id, id ∈ ids ↔ Goes s doomed id
  after : ∀ before id after, ids = before ++ id :: after →
    ∀ dependency, Depends s doomed id dependency → dependency ∈ before

theorem isOrder_iff (hs : s.KeysMatch) (hgraph : graph s doomed = .ok g) :
    IsOrder s doomed ids ↔ g.IsOrder ids := by
  obtain ⟨hg, hids, -⟩ := graph_spec hgraph
  have hgoes : ∀ id, id ∈ g.ids ↔ Goes s doomed id := fun id => hids ▸ mem_map_records hs
  constructor
  · intro h
    refine ⟨(List.perm_ext_iff_of_nodup h.nodup hg.nodup).2 fun id => ?_, ?_⟩
    · rw [h.mem, hgoes]
    · intro before id after heq dependency hdependency
      exact h.after before id after heq dependency ((mem_dependencies_iff hs hgraph).1 hdependency)
  · intro h
    refine ⟨h.perm.nodup_iff.2 hg.nodup, fun id => by rw [h.perm.mem_iff, hgoes], ?_⟩
    intro before id after heq dependency hdependency
    exact h.after before id after heq dependency ((mem_dependencies_iff hs hgraph).2 hdependency)

theorem pairwise_records (hs : s.KeysMatch) :
    (records s doomed).Pairwise fun a b => a.CreatedBefore b ∧ s.get? a.id = some a ∧
      s.get? b.id = some b := by
  refine (hs.pairwise_inCreationOrder.sublist List.filter_sublist).imp_of_mem ?_
  exact fun ha hb hbefore => ⟨hbefore, ((mem_records hs).1 ha).1, ((mem_records hs).1 hb).1⟩

theorem pairwise_ids (hs : s.KeysMatch) (hgraph : graph s doomed = .ok g) :
    g.ids.Pairwise s.CreatedBefore := by
  rw [(graph_spec hgraph).2.1, List.pairwise_map]
  exact (pairwise_records hs).imp fun ⟨hbefore, ha, hb⟩ => ⟨_, _, ha, hb, hbefore⟩

/-- If nothing depends on what has a number no smaller, the order of creation is an order of what
goes. -/
theorem isOrder_ids (hs : s.KeysMatch) (hgraph : graph s doomed = .ok g)
    (hback : ∀ a ∈ records s doomed, ∀ b ∈ records s doomed, b.id ∈ a.dependencies →
      b.sequence < a.sequence) :
    g.IsOrder g.ids := by
  obtain ⟨-, hids, hdeps⟩ := graph_spec hgraph
  refine ⟨.refl _, fun before id after heq dependency hdependency => ?_⟩
  obtain ⟨a, ha, rfl, hrecorded, hmem⟩ := (hdeps _ _).1 hdependency
  rw [hids] at hmem
  obtain ⟨b, hb, rfl⟩ := List.mem_map.1 hmem
  have hbefore : s.CreatedBefore b.id a.id :=
    ⟨b, a, ((mem_records hs).1 hb).1, ((mem_records hs).1 ha).1, .inl (hback a ha b hb hrecorded)⟩
  have hmem : b.id ∈ before ++ a.id :: after := by
    rw [← heq, hids]
    exact List.mem_map_of_mem hb
  have hsorted := List.pairwise_append.1 (heq ▸ pairwise_ids hs hgraph)
  rcases List.mem_append.1 hmem with hmem | hmem
  · exact hmem
  · rcases List.mem_cons.1 hmem with hsame | hmem
    · exact absurd (hsame ▸ hbefore) (hsame ▸ hbefore).asymm
    · exact absurd ((List.pairwise_cons.1 hsorted.2.1).1 _ hmem) hbefore.asymm

/-! ## The deletions -/

/-- A deletion waits for those of all that depends on its resource, and for no others. -/
theorem Arranged.mem_dependsOn_iff (h : Arranged s doomed g ids) (hs : s.KeysMatch)
    (hgraph : graph s doomed = .ok g) {step : Step} {j : Nat}
    (hstep : step ∈ stepsFor s doomed g .empty 0 ids) :
    j ∈ step.dependsOn ↔ ∃ other, (stepsFor s doomed g .empty 0 ids)[j]? = some other ∧
      Depends s doomed other.nodeId step.nodeId := by
  obtain ⟨i, r, hid, -, heq⟩ := h.mem_steps hstep
  have hplaced : ∀ other, ids[j]? = some other ↔
      ∃ step', (stepsFor s doomed g .empty 0 ids)[j]? = some step' ∧ step'.nodeId = other := by
    intro other
    rw [← Option.map_eq_some_iff, ← List.getElem?_map, h.nodeIds]
  have hwaits : j ∈ step.dependsOn ↔
      j < i ∧ ∃ other, ids[j]? = some other ∧ step.nodeId ∈ g.dependencies other := by
    conv_lhs => rw [← heq]
    exact h.mem_dependsOn
  rw [hwaits]
  constructor
  · rintro ⟨-, _, hother, hdependency⟩
    obtain ⟨step', hstep', rfl⟩ := (hplaced _).1 hother
    exact ⟨step', hstep', (mem_dependencies_iff hs hgraph).1 hdependency⟩
  · rintro ⟨step', hstep', hdepends⟩
    have hother := (hplaced _).2 ⟨step', hstep', rfl⟩
    have hdependency := (mem_dependencies_iff hs hgraph).2 hdepends
    exact ⟨h.before hid hother hdependency, _, hother, hdependency⟩

/-- Deletions that go back through the first order of what goes: that is the one in which at the
first place where another differs the resource was created before the other's. -/
structure Unwinds (s : State) (doomed : Doomed) (deletions : List Step) : Prop where
  sound : Sound s.resources doomed deletions
  order : IsOrder s doomed (deletions.map (·.nodeId)).reverse
  first : ∀ ids, IsOrder s doomed ids → (deletions.map (·.nodeId)).reverse = ids ∨
    List.Lex s.CreatedBefore (deletions.map (·.nodeId)).reverse ids
  waits : ∀ step ∈ deletions, ∀ i, i ∈ step.dependsOn ↔
    ∃ other, deletions[i]? = some other ∧ Depends s doomed other.nodeId step.nodeId
  descending : (∀ a ∈ records s doomed, ∀ b ∈ records s doomed, b.id ∈ a.dependencies →
      b.sequence < a.sequence) →
    ((records s doomed).map (·.sequence)).Nodup →
    (deletions.map (·.nodeId)).Pairwise fun id other => s.Earlier other id

/-- What goes can be removed just if none of it was recorded as depending on itself, not even by way
of others that go. The deletions go back through the first order of what goes, each waiting for
those of all that depends on its resource. If dependencies have smaller numbers, and no number comes
twice, the numbers fall from one deletion to the next. -/
theorem steps_unwind (hs : s.KeysMatch) (doomed : Doomed) :
    ((∃ deletions, steps s doomed = .ok deletions) ↔
      ∀ id, ¬ TransGen (Depends s doomed) id id) ∧
    ∀ deletions, steps s doomed = .ok deletions → Unwinds s doomed deletions := by
  refine ⟨exists_steps_iff hs, fun deletions h => ?_⟩
  have hsound := steps_spec hs h
  obtain ⟨g, hgraph, hrest⟩ := bind_eq_ok_iff.1 h
  obtain ⟨order, horder, hpure⟩ := bind_eq_ok_iff.1 hrest
  obtain rfl := pure_eq_ok_iff.1 hpure
  obtain ⟨hg, hids, -⟩ := graph_spec hgraph
  have harranged := Arranged.of_order hs hgraph horder
  have hnodeIds := harranged.nodeIds
  refine ⟨hsound, ?order, ?first, fun step hstep i => ?waits, fun hback hnumbers => ?descending⟩
  case order =>
    rw [hnodeIds, List.reverse_reverse]
    exact (isOrder_iff hs hgraph).2 (Graph.order_spec hg horder)
  case first =>
    intro ids hother
    rw [hnodeIds, List.reverse_reverse]
    exact ((isOrder_iff hs hgraph).1 hother).eq_or_lex hg (pairwise_ids hs hgraph) horder
  case waits => exact harranged.mem_dependsOn_iff hs hgraph hstep
  case descending =>
    have hcreated := (isOrder_ids hs hgraph hback).order_eq hg
    obtain rfl := Except.ok.inj (hcreated.symm.trans horder)
    rw [hnodeIds, List.pairwise_reverse, hids, List.pairwise_map]
    refine ((pairwise_records hs).and (List.pairwise_map.1 hnumbers)).imp ?_
    rintro a b ⟨⟨hbefore, ha, hb⟩, hne⟩
    exact ⟨a, b, ha, hb, hbefore.resolve_right fun ⟨heq, _⟩ => hne heq⟩

/-- A network, a service that came to use a log sink and a second service, both created later, and
that second service, which was recorded as depending on the first. -/
def grown : State :=
  { State.new "shop" "test" ⟨0, 0⟩ with
    resources := .ofList [
      ("net", Record.new "net" .network "ne-1" ⟨0, 0⟩),
      ("web", { Record.new "web" .service "se-1" ⟨0, 0⟩ with
        dependencies := ["net", "sink", "login"], sequence := 1 }),
      ("sink", { Record.new "sink" .logSink "lo-1" ⟨0, 0⟩ with sequence := 2 }),
      ("login", { Record.new "login" .service "se-2" ⟨0, 0⟩ with
        dependencies := ["web"], sequence := 3 })] }

/-- Some of what was recorded. -/
def leaving (ids : List String) : Doomed := .ofList (ids.map fun id => (id, "no longer declared"))

/-- Node of every step, and the numbers of the steps that it waits for. -/
def waiting (deletions : List Step) : List (String × List Nat) :=
  deletions.map fun step => (step.nodeId, step.dependsOn)

/-- All four cannot be removed. If the second service stays, the first goes before the log sink,
although that is newer, and before the network. Of network and service the newer goes first. -/
theorem steps_unwind_grown : grown.KeysMatch ∧
    (¬ ∃ deletions, steps grown (.everything grown) = .ok deletions) ∧
    (∃ deletions, steps grown (leaving ["net", "sink", "web"]) = .ok deletions ∧
      waiting deletions = [("web", []), ("sink", [0]), ("net", [0])] ∧
      Unwinds grown (leaving ["net", "sink", "web"]) deletions) ∧
    ∃ deletions, steps grown (leaving ["net", "web"]) = .ok deletions ∧
      (deletions.map (·.nodeId)).Pairwise fun id other => grown.Earlier other id := by
  have hkeys : grown.KeysMatch := by decide +kernel
  refine ⟨hkeys, ?_, ?_, ?_⟩
  · rw [(steps_unwind hkeys _).1]
    intro hacyclic
    have huses : Depends grown (.everything grown) "web" "login" :=
      ⟨⟨rfl, _, rfl⟩, ⟨rfl, _, rfl⟩, _, rfl, by decide⟩
    have hused : Depends grown (.everything grown) "login" "web" :=
      ⟨⟨rfl, _, rfl⟩, ⟨rfl, _, rfl⟩, _, rfl, by decide⟩
    exact hacyclic "web" (.tail (.single huses) hused)
  · have hlisted : ((steps grown (leaving ["net", "sink", "web"])).toOption.map waiting) =
        some [("web", []), ("sink", [0]), ("net", [0])] := by decide +kernel
    obtain ⟨deletions, hok, hwaiting⟩ := Option.map_eq_some_iff.1 hlisted
    have hsteps := toOption_eq_some_iff.1 hok
    exact ⟨deletions, hsteps, hwaiting, (steps_unwind hkeys _).2 _ hsteps⟩
  · have hlisted : (steps grown (leaving ["net", "web"])).toOption.isSome := by decide +kernel
    obtain ⟨deletions, hok⟩ := Option.isSome_iff_exists.1 hlisted
    have hsteps := toOption_eq_some_iff.1 hok
    exact ⟨deletions, hsteps, ((steps_unwind hkeys _).2 _ hsteps).descending (by decide +kernel)
      (by decide +kernel)⟩

end Removal

end Converge
