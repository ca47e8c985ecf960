import Converge.Proofs.Graph.Rearrangement
import Converge.Proofs.Stack.Check

/-!
# What declarations build

A list of declarations makes up a graph under four conditions: no exposed port is zero or listed
twice, no two nodes have one id, no node needs an id that no node has, and no node needs itself by way
of others. The graph has the declared nodes in order, those of exposed ports right after the
declaration that exposes them, and its edges are what the nodes need: the ids that they wait for by
name, and those of the references at any depth of their attributes.

Main statement: `Graph.ofDeclarations_exact`.
-/

namespace Converge

open Relation (TransGen)

/-! ## References at any depth -/

namespace AttributeValue

/-- Whether a reference stands in a value, at any depth. -/
inductive Holds (r : Reference) : AttributeValue → Prop where
  | here : Holds r (.reference r)
  | item {items : List AttributeValue} {item : AttributeValue} (hitem : item ∈ items)
      (h : Holds r item) : Holds r (.list items)
  | entry {entries : List (String × AttributeValue)} {entry : String × AttributeValue}
      (hentry : entry ∈ entries) (h : Holds r entry.2) : Holds r (.map entries)

variable {r : Reference}

theorem holds_reference_iff {target : Reference} : (reference target).Holds r ↔ r = target :=
  ⟨fun h => by cases h; rfl, fun h => h ▸ .here⟩

theorem holds_list_iff {items : List AttributeValue} :
    (list items).Holds r ↔ ∃ item ∈ items, item.Holds r :=
  ⟨fun h => by cases h with | item hitem h => exact ⟨_, hitem, h⟩, fun ⟨_, hitem, h⟩ => .item hitem h⟩

theorem holds_map_iff {entries : List (String × AttributeValue)} :
    (map entries).Holds r ↔ ∃ entry ∈ entries, entry.2.Holds r :=
  ⟨fun h => by cases h with | entry hentry h => exact ⟨_, hentry, h⟩,
    fun ⟨_, hentry, h⟩ => .entry hentry h⟩

mutual

/-- The references that are collected from a value are those that stand in it. -/
theorem mem_references_iff : (value : AttributeValue) → (r ∈ value.references ↔ value.Holds r)
  | .literal _ => ⟨fun h => by simp [references] at h, nofun⟩
  | .reference target => by rw [references, List.mem_singleton, holds_reference_iff]
  | .list items => by rw [references, mem_itemReferences_iff items, holds_list_iff]
  | .map entries => by rw [references, mem_entryReferences_iff entries, holds_map_iff]

theorem mem_itemReferences_iff : (items : List AttributeValue) →
    (r ∈ itemReferences items ↔ ∃ item ∈ items, item.Holds r)
  | [] => by simp [itemReferences]
  | item :: rest => by
    rw [itemReferences, List.mem_append, mem_references_iff item, mem_itemReferences_iff rest,
      List.exists_mem_cons_iff]

theorem mem_entryReferences_iff : (entries : List (String × AttributeValue)) →
    (r ∈ entryReferences entries ↔ ∃ entry ∈ entries, entry.2.Holds r)
  | [] => by simp [entryReferences]
  | (name, value) :: rest => by
    rw [entryReferences, List.mem_append, mem_references_iff value, mem_entryReferences_iff rest,
      List.exists_mem_cons_iff]

end

end AttributeValue

namespace Node

/-- Whether a node waits for an id by name, or one of its attributes refers to it at some depth. -/
def Needs (n : Node) (id : String) : Prop :=
  id ∈ n.dependsOn ∨ ∃ name value r,
    n.attributes.get? name = some value ∧ value.Holds r ∧ r.nodeId = id

theorem mem_dependencyIds_iff_needs {n : Node} {id : String} :
    id ∈ n.dependencyIds ↔ n.Needs id := by
  rw [mem_dependencyIds_iff, Needs]
  simp only [Table.mem_values, AttributeValue.mem_references_iff]
  grind

end Node

/-! ## The graph -/

namespace Graph

/-- A list of declarations has a graph just if every list of exposed ports is free of zero and of
repetition, the nodes have distinct ids and need one another only, and none needs itself, directly or
not. The graph has the declared nodes and those of their ports in order, every node depends on just
what it needs, and dependents are the converse of dependencies. -/
theorem ofDeclarations_exact (declarations : List Declaration) :
    ((∃ g, ofDeclarations declarations = .ok g) ↔
      (∀ d ∈ declarations, ∀ exposure, d.expose = some exposure →
        (∀ port ∈ exposure.ports, port.number ≠ 0) ∧ (exposure.ports.map (·.number)).Nodup) ∧
      ((declared declarations).map (·.id)).Nodup ∧
      (∀ node ∈ declared declarations, ∀ id, node.Needs id →
        ∃ other ∈ declared declarations, other.id = id) ∧
      ∀ id, ¬ TransGen (fun id dependency =>
        ∃ node ∈ declared declarations, node.id = id ∧ node.Needs dependency) id id) ∧
    ∀ g, ofDeclarations declarations = .ok g →
      g.nodes = declared declarations ∧
      (∀ node ∈ g.nodes, ∀ id, id ∈ g.dependencies node.id ↔ node.Needs id) ∧
      ∀ id other, other ∈ g.dependents id ↔ id ∈ g.dependencies other := by
  refine ⟨exists_ofDeclarations_iff.trans (and_congr_right fun _ => ?_), fun g hg => ?_⟩
  · have hdepends : DependsIn (declared declarations) = fun id dependency =>
        ∃ node ∈ declared declarations, node.id = id ∧ node.Needs dependency := by
      funext id dependency
      simp only [DependsIn, Node.mem_dependencyIds_iff_needs]
    rw [← hdepends]
    constructor
    · intro h
      refine ⟨h.nodup, fun node hnode id hneeds => ?_, h.acyclic⟩
      exact List.mem_map.1 (h.known node.id id
        ⟨node, hnode, rfl, Node.mem_dependencyIds_iff_needs.2 hneeds⟩)
    · rintro ⟨hnodup, hknown, hacyclic⟩
      refine ⟨hnodup, ?_, hacyclic⟩
      rintro id dependency ⟨node, hnode, -, hdep⟩
      exact List.mem_map.2 (hknown node hnode dependency (Node.mem_dependencyIds_iff_needs.1 hdep))
  · have hlinked := Linked.ofDeclarations hg
    refine ⟨nodes_ofDeclarations hg, fun node hnode id => ?_, fun id other => ?_⟩
    · exact (hlinked.dependencies node hnode).trans Node.mem_dependencyIds_iff_needs
    · exact hlinked.coherent.mem_dependents

/-- A service with two ports, and a balancer that refers to its network in a list inside a map. -/
def balancedDeclarations : List Declaration := [
  { id := "web", kind := .service, dependsOn := ["group"],
    expose := some { container := "app", network := "net", securityGroup := "group",
                     loadBalancer := "balancer", ports := [{ number := 80 }, { number := 443 }] } },
  { id := "net", kind := .network },
  { id := "group", kind := .securityGroup, attributes := .ofList [("network", .output "net" "id")] },
  { id := "balancer", kind := .loadBalancer, attributes := .ofList [
      ("placement", .map [("networks", .list [.output "net" "id", .text "net-2"])])] }]

/-- The nodes of the ports stand between the service and what is declared after it, and the balancer
depends on the network. -/
theorem ofDeclarations_exact_balanced : ∃ g, ofDeclarations balancedDeclarations = .ok g ∧
    g.ids = ["web", "TargetGroup80", "Listener80", "IngressRule80", "TargetGroup443", "Listener443",
      "IngressRule443", "net", "group", "balancer"] ∧
    ((declared balancedDeclarations).map (·.id)).Nodup ∧
    "net" ∈ g.dependencies "balancer" ∧ "balancer" ∈ g.dependents "net" := by
  have haccepted : (ofDeclarations balancedDeclarations).toOption.isSome = true := by decide +kernel
  obtain ⟨g, hg⟩ := Option.isSome_iff_exists.1 haccepted
  rw [toOption_eq_some_iff] at hg
  obtain ⟨hiff, hgraph⟩ := ofDeclarations_exact balancedDeclarations
  obtain ⟨-, hnodup, -, -⟩ := hiff.1 ⟨g, hg⟩
  obtain ⟨hnodes, hdependencies, hdependents⟩ := hgraph g hg
  have hids : g.ids = (declared balancedDeclarations).map (·.id) := by rw [ids_eq, hnodes]
  have hbalancer : ∃ node ∈ g.nodes, node.id = "balancer" ∧ node.Needs "net" := by
    refine hnodes ▸ ⟨Declaration.node (balancedDeclarations[3]), ?_, rfl, .inr ?_⟩
    · exact mem_declared (List.getElem_mem _) (List.mem_cons_self ..)
    · exact ⟨"placement", _, ⟨"net", "id"⟩, rfl,
        .entry (List.mem_singleton_self _) (.item (List.mem_cons_self ..) .here), rfl⟩
  obtain ⟨node, hnode, hid, hneeds⟩ := hbalancer
  have hdependency : "net" ∈ g.dependencies "balancer" :=
    hid ▸ (hdependencies node hnode "net").2 hneeds
  exact ⟨g, hg, hids.trans (by decide +kernel), hnodup, hdependency,
    (hdependents "net" "balancer").2 hdependency⟩

end Graph

end Converge
