import Converge.Graph.Build
import Converge.Proofs.Except
import Converge.Proofs.Graph.Order
import Converge.Proofs.Table
import Mathlib.Data.List.Induction

/-!
# Built graphs

The graph of a list of declarations is coherent, links every node to just what it depends on, and
has a dependency order.

Main statements: `Graph.Linked.ofDeclarations` says this of every graph that is built, and
`Graph.Linked.sortedNodes` gives its order with what later stages use of it.
-/

namespace Converge

namespace Graph

variable {g g' : Graph}

/-- A coherent graph with a dependency order that links every node to just what it depends on. -/
structure Linked (g : Graph) : Prop where
  coherent : g.Coherent
  dependencies : ∀ node ∈ g.nodes, ∀ {id}, id ∈ g.dependencies node.id ↔ id ∈ node.dependencyIds
  sorts : ∃ order, g.sort = .ok order

/-- Nodes of distinct ids, each after all that it depends on. -/
structure Ordered (order : List Node) : Prop where
  nodup : (order.map (·.id)).Nodup
  before : ∀ before node after, order = before ++ node :: after →
    ∀ id ∈ node.dependencyIds, ∃ other ∈ before, other.id = id

namespace Ordered

variable {order : List Node} {node : Node}

theorem of_append {rest : List Node} (h : Ordered (order ++ rest)) : Ordered order := by
  refine ⟨?_, fun before other after heq => ?_⟩
  · have hnodup := h.nodup
    rw [List.map_append] at hnodup
    exact hnodup.of_append_left
  · exact h.before before other (after ++ rest) (by simp [heq])

theorem prefix_concat (h : Ordered (order ++ [node])) : Ordered order := h.of_append

theorem ne_of_concat (h : Ordered (order ++ [node])) {other : Node} (hother : other ∈ order) :
    other.id ≠ node.id := by
  have hnodup := h.nodup
  rw [List.map_append, List.nodup_append] at hnodup
  exact hnodup.2.2 _ (List.mem_map_of_mem hother) _ (by simp)

theorem exists_of_concat (h : Ordered (order ++ [node])) {id : String}
    (hid : id ∈ node.dependencyIds) : ∃ other ∈ order, other.id = id :=
  h.before order node [] rfl id hid

/-- What an order lists depends on nodes of the order only. -/
theorem exists_of_mem (h : Ordered order) (hnode : node ∈ order) {id : String}
    (hid : id ∈ node.dependencyIds) : ∃ other ∈ order, other.id = id := by
  obtain ⟨before, after, rfl⟩ := List.append_of_mem hnode
  obtain ⟨other, hother, heq⟩ := h.before before node after rfl id hid
  exact ⟨other, List.mem_append_left _ hother, heq⟩

/-- A node is determined by its id. -/
theorem ext (h : Ordered order) {other : Node} (hnode : node ∈ order) (hother : other ∈ order)
    (hid : node.id = other.id) : node = other :=
  List.inj_on_of_nodup_map h.nodup hnode hother hid

/-- Induction over the dependencies: what holds of a node whenever it holds of all that the node
depends on, holds of every node. -/
theorem induction {P : Node → Prop} (h : Ordered order)
    (hstep : ∀ node ∈ order,
      (∀ other ∈ order, other.id ∈ node.dependencyIds → P other) → P node) :
    ∀ node ∈ order, P node := by
  have hprefix : ∀ before after, order = before ++ after → ∀ node ∈ before, P node := by
    intro before
    induction before using List.reverseRecOn with
    | nil => simp
    | append_singleton before last ih =>
      intro after heq node hnode
      have hbefore := ih (last :: after) (by simp [heq])
      rcases List.mem_append.1 hnode with hnode | hnode
      · exact hbefore node hnode
      · obtain rfl := List.mem_singleton.1 hnode
        refine hstep node (by simp [heq]) fun other hother hid => ?_
        obtain ⟨same, hsame, hsameId⟩ := h.before before node after (by simp [heq]) _ hid
        have hsameMem : same ∈ order := heq ▸ by simp [hsame]
        exact h.ext hsameMem hother hsameId ▸ hbefore same hsame
  exact hprefix order [] (by simp)

end Ordered

/-! ## Nodes without edges -/

/-- A coherent graph without edges. -/
structure Unlinked (g : Graph) : Prop where
  coherent : g.Coherent
  dependencies : ∀ i, g.dependenciesAt i = []

theorem Unlinked.empty : Unlinked Graph.empty :=
  ⟨.empty, fun i => by simp [dependenciesAt, Graph.empty]⟩

theorem Unlinked.addNode {node : Node} (h : g.Unlinked) (hadd : g.addNode node = .ok g') :
    g'.Unlinked :=
  ⟨h.coherent.addNode hadd, fun i => (dependenciesAt_addNode hadd i).trans (h.dependencies i)⟩

theorem Unlinked.addTo {d : Declaration} (h : g.Unlinked) (hadd : d.addTo g = .ok g') :
    g'.Unlinked := by
  obtain ⟨own, hown, hrest⟩ := bind_eq_ok_iff.1 hadd
  have hown' : own.Unlinked := h.addNode (mapError_eq_ok_iff.1 hown)
  cases hexpose : d.expose with
  | none =>
    rw [hexpose] at hrest
    exact (pure_eq_ok_iff.1 hrest) ▸ hown'
  | some exposure =>
    rw [hexpose] at hrest
    obtain ⟨derived, -, hfold⟩ := bind_eq_ok_iff.1 hrest
    exact foldlM_induction (mapError_eq_ok_iff.1 hfold) hown' fun _ _ _ _ h hadd => h.addNode hadd

theorem Unlinked.mem_dependencies (h : g.Unlinked) {id dependency : String} :
    dependency ∉ g.dependencies id := by
  rw [h.coherent.mem_dependencies]
  rintro ⟨i, j, -, -, hmem⟩
  rw [h.dependencies i] at hmem
  cases hmem

/-! ## Edges -/

theorem nodes_addEdge {source target : String} (h : g.addEdge source target = .ok g') :
    g'.nodes = g.nodes := by
  obtain ⟨a, b, -, -, rfl⟩ := addEdge_eq_ok_iff.1 h
  exact nodes_link g a b

/-- What steps that add edges and leave the nodes alone add up to. -/
theorem foldlM_edges {α : Type} {f : Graph → α → Except GraphError Graph}
    (edge : α → String → String → Prop) {nodes : List Node}
    (hf : ∀ {g g' : Graph} {x : α}, g.Coherent → g.nodes = nodes → f g x = .ok g' →
      g'.Coherent ∧ g'.nodes = nodes ∧
        ∀ id dependency, dependency ∈ g'.dependencies id ↔
          edge x id dependency ∨ dependency ∈ g.dependencies id)
    {xs : List α} (hg : g.Coherent) (hnodes : g.nodes = nodes) (h : xs.foldlM f g = .ok g') :
    g'.Coherent ∧ g'.nodes = nodes ∧
      ∀ id dependency, dependency ∈ g'.dependencies id ↔
        (∃ x ∈ xs, edge x id dependency) ∨ dependency ∈ g.dependencies id := by
  induction xs generalizing g with
  | nil =>
    rw [List.foldlM_nil, pure_eq_ok_iff] at h
    subst h
    exact ⟨hg, hnodes, by simp⟩
  | cons x xs ih =>
    rw [List.foldlM_cons] at h
    obtain ⟨next, hnext, hrest⟩ := bind_eq_ok_iff.1 h
    obtain ⟨hnextc, hnextn, hnextd⟩ := hf hg hnodes hnext
    obtain ⟨hcoherent, hnodes', hdeps⟩ := ih hnextc hnextn hrest
    refine ⟨hcoherent, hnodes', fun id dependency => ?_⟩
    rw [hdeps, hnextd, List.exists_mem_cons_iff, or_assoc, or_left_comm]

/-- What adding edges from one node does to a coherent graph. -/
theorem addEdges_spec {source : String} {targets : List String} (hg : g.Coherent)
    (h : targets.foldlM (fun g target => g.addEdge source target) g = .ok g') :
    g'.Coherent ∧ g'.nodes = g.nodes ∧
      ∀ id dependency, dependency ∈ g'.dependencies id ↔
        (id = source ∧ dependency ∈ targets) ∨ dependency ∈ g.dependencies id := by
  obtain ⟨hcoherent, hnodes, hdeps⟩ := foldlM_edges
    (fun target id dependency => id = source ∧ dependency = target)
    (fun hg hnodes hadd => ⟨hg.addEdge hadd, (nodes_addEdge hadd).trans hnodes,
      fun _ _ => mem_dependencies_addEdge hg hadd⟩) hg rfl h
  refine ⟨hcoherent, hnodes, fun id dependency => ?_⟩
  rw [hdeps]
  grind

/-- What linking nodes to all they depend on does to a coherent graph. -/
theorem linkNodes_spec {nodes : List Node} (hg : g.Coherent)
    (h : nodes.foldlM linkNode g = .ok g') :
    g'.Coherent ∧ g'.nodes = g.nodes ∧
      ∀ id dependency, dependency ∈ g'.dependencies id ↔
        (∃ node ∈ nodes, id = node.id ∧ dependency ∈ node.dependencyIds) ∨
          dependency ∈ g.dependencies id :=
  foldlM_edges _ (fun hg hnodes hlink =>
    let ⟨hcoherent, hnodes', hdeps⟩ := addEdges_spec hg hlink
    ⟨hcoherent, hnodes'.trans hnodes, hdeps⟩) hg rfl h

/-! ## The graph of declarations -/

namespace Linked

/-- A node is determined by its id. -/
theorem node_ext (h : g.Linked) {a b : Node} (ha : a ∈ g.nodes) (hb : b ∈ g.nodes)
    (hid : a.id = b.id) : a = b :=
  List.inj_on_of_nodup_map (ids_eq g ▸ h.coherent.nodup) ha hb hid

theorem ofDeclarations {declarations : List Declaration}
    (h : Graph.ofDeclarations declarations = .ok g) : g.Linked := by
  obtain ⟨unlinked, hunlinked, hlink⟩ := bind_eq_ok_iff.1 h
  obtain ⟨linked, hlinked, hsort⟩ := bind_eq_ok_iff.1 hlink
  obtain ⟨order, horder, hpure⟩ := bind_eq_ok_iff.1 hsort
  obtain rfl := pure_eq_ok_iff.1 hpure
  have hbare : unlinked.Unlinked :=
    foldlM_induction hunlinked .empty fun _ _ _ _ h hadd => h.addTo hadd
  obtain ⟨hcoherent, hnodes, hdeps⟩ := linkNodes_spec hbare.coherent (mapError_eq_ok_iff.1 hlinked)
  refine ⟨hcoherent, fun node hnode id => ?_, order, mapError_eq_ok_iff.1 horder⟩
  rw [hdeps]
  constructor
  · rintro (⟨other, hother, hid, hmem⟩ | hmem)
    · have hsame : other = node :=
        List.inj_on_of_nodup_map (ids_eq linked ▸ hcoherent.nodup) (hnodes ▸ hother) hnode hid.symm
      exact hsame ▸ hmem
    · exact absurd hmem hbare.mem_dependencies
  · intro hmem
    exact .inl ⟨node, hnodes ▸ hnode, rfl, hmem⟩

/-- A built graph has a dependency order, which lists all of its nodes. -/
theorem sortedNodes (h : g.Linked) :
    ∃ order, g.sortedNodes = .ok order ∧ order.Perm g.nodes ∧ Ordered order := by
  obtain ⟨positions, hpositions⟩ := h.sorts
  have hsorted : g.sortedNodes =
      .ok (positions.filterMap fun i => g.vertices[i]?.map (·.node)) := by
    rw [Graph.sortedNodes, hpositions]
    rfl
  obtain ⟨hperm, hbefore⟩ := sortedNodes_spec h.coherent hsorted
  refine ⟨_, hsorted, hperm, ?_, fun before node after heq id hid => ?_⟩
  · exact (hperm.map (·.id)).nodup_iff.2 (ids_eq g ▸ h.coherent.nodup)
  · have hmem : node ∈ g.nodes := hperm.mem_iff.1 (heq ▸ by simp)
    exact hbefore before node after heq id ((h.dependencies node hmem).2 hid)

end Linked

end Graph

end Converge
