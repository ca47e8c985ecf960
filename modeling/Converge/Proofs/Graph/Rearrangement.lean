import Converge.Proofs.Graph.Acyclic
import Mathlib.Data.List.Forall2

/-!
# Which declarations make up a graph

A list of declarations makes up a graph just if its ports can be wired and the nodes it brings have
distinct ids, depend on one another only, and can be put in an order. None of this looks at the
order in which declarations or ports are listed.

Main statements: `Graph.exists_ofDeclarations_iff` says which declarations are accepted, and
`Graph.Rearranged.accepted_iff` and `Graph.Rearranged.nodes_perm` what becomes of declarations that
are listed in another order.
-/

namespace Converge

open Relation (TransGen)

/-! ## The nodes of ports -/

namespace Exposure

variable {exposure : Exposure} {service : String}

/-- The nodes of the ports, whether or not these can be wired. -/
def portNodes (exposure : Exposure) (service : String) : List Node :=
  exposure.ports.flatMap fun port => (exposure.wirePort service port).nodes

/-- Whether zero is no port and no port comes twice. -/
def Wirable (exposure : Exposure) : Prop :=
  (∀ port ∈ exposure.ports, port.number ≠ 0) ∧ (exposure.ports.map (·.number)).Nodup

theorem wirePorts_eq_ok_iff {seen : List Nat} {ports : List Port} {topology wired : PortTopology} :
    exposure.wirePorts service seen topology ports = .ok wired ↔
      ((∀ port ∈ ports, port.number ≠ 0 ∧ port.number ∉ seen) ∧ (ports.map (·.number)).Nodup) ∧
        (ports.map (exposure.wirePort service)).foldl PortTopology.push topology = wired := by
  induction ports generalizing seen topology with
  | nil => simp [wirePorts]
  | cons port rest ih =>
    rw [wirePorts]
    by_cases hzero : port.number = 0
    · simp [hzero]
    by_cases hseen : port.number ∈ seen
    · simp [hzero, hseen]
    rw [if_neg hzero, if_neg (by simpa using hseen), ih]
    simp only [List.forall_mem_cons, List.map_cons, List.nodup_cons, List.foldl_cons]
    refine and_congr_left fun _ => ?_
    constructor
    · rintro ⟨hports, hnodup⟩
      refine ⟨⟨⟨hzero, hseen⟩, fun other hother => ?_⟩, ?_, hnodup⟩
      · exact ⟨(hports other hother).1, fun hmem =>
          (hports other hother).2 (List.mem_cons_of_mem _ hmem)⟩
      · intro hmem
        obtain ⟨other, hother, heq⟩ := List.mem_map.1 hmem
        exact (hports other hother).2 (heq ▸ List.mem_cons_self ..)
    · rintro ⟨⟨-, hports⟩, hnew, hnodup⟩
      refine ⟨fun other hother => ⟨(hports other hother).1, ?_⟩, hnodup⟩
      rw [List.mem_cons, not_or]
      exact ⟨fun heq => hnew (List.mem_map.2 ⟨other, hother, heq⟩), (hports other hother).2⟩

theorem foldl_push (wirings : List PortWiring) (topology : PortTopology) :
    wirings.foldl PortTopology.push topology =
      ⟨topology.targetGroups ++ wirings.map (·.targetGroup),
        topology.listeners ++ wirings.map (·.listener),
        topology.ingressRules ++ wirings.map (·.ingressRule)⟩ := by
  induction wirings generalizing topology with
  | nil => simp
  | cons wiring rest ih => rw [List.foldl_cons, ih]; simp [PortTopology.push]

/-- The lists of nodes have one length, so none of them is lost when they are grouped. -/
theorem nodes_foldl_push (wirings : List PortWiring) :
    (wirings.foldl PortTopology.push {}).nodes = wirings.flatMap PortWiring.nodes := by
  rw [foldl_push, PortTopology.nodes]
  simp only [List.nil_append, List.zip_map', List.flatMap_map]

theorem derivedNodes_eq_ok_iff {nodes : List Node} :
    exposure.derivedNodes service = .ok nodes ↔
      exposure.Wirable ∧ exposure.portNodes service = nodes := by
  have hnodes : exposure.portNodes service =
      ((exposure.ports.map (exposure.wirePort service)).foldl PortTopology.push {}).nodes := by
    rw [nodes_foldl_push, List.flatMap_map, portNodes]
  rw [derivedNodes, bind_eq_ok_iff]
  simp only [wire, wirePorts_eq_ok_iff, pure_eq_ok_iff, List.not_mem_nil, not_false_eq_true,
    and_true]
  constructor
  · rintro ⟨_, ⟨hwirable, rfl⟩, rfl⟩
    exact ⟨hwirable, hnodes⟩
  · rintro ⟨hwirable, rfl⟩
    exact ⟨_, ⟨hwirable, rfl⟩, hnodes.symm⟩

/-- Two exposures that list the same ports, each in its own order, and are alike otherwise. -/
def Reorders (exposure other : Exposure) : Prop :=
  other = { exposure with ports := other.ports } ∧ exposure.ports.Perm other.ports

namespace Reorders

variable {other : Exposure}

theorem portNodes (h : exposure.Reorders other) (service : String) :
    (exposure.portNodes service).Perm (other.portNodes service) := by
  -- The wiring of a port knows of the exposure all but its list of ports.
  have hwire : other.wirePort service = exposure.wirePort service := by
    rw [h.1]
    rfl
  rw [Exposure.portNodes, Exposure.portNodes, hwire]
  exact h.2.flatMap_right _

theorem wirable_iff (h : exposure.Reorders other) : exposure.Wirable ↔ other.Wirable :=
  and_congr (forall_congr' fun _ => imp_congr_left h.2.mem_iff) (h.2.map _).nodup_iff

end Reorders

end Exposure

/-! ## The nodes of declarations -/

namespace Declaration

/-- The nodes that a declaration brings: its own, then those of its ports. -/
def nodes (d : Declaration) : List Node :=
  d.node :: (d.expose.map fun exposure => exposure.portNodes d.id).getD []

/-- Whether the ports of a declaration, if it has any, can be wired. -/
def Wirable (d : Declaration) : Prop := ∀ exposure, d.expose = some exposure → exposure.Wirable

/-- Two declarations that list the same ports, each in its own order, and are alike otherwise. -/
def Reorders (d other : Declaration) : Prop :=
  other = { d with expose := other.expose } ∧
    Option.Rel Exposure.Reorders d.expose other.expose

namespace Reorders

variable {d other : Declaration}

theorem nodes (h : d.Reorders other) : d.nodes.Perm other.nodes := by
  obtain ⟨hsame, hexpose⟩ := h
  have hnode : other.node = d.node := by
    rw [hsame]
    rfl
  have hid : other.id = d.id := by rw [hsame]
  rw [Declaration.nodes, Declaration.nodes, hnode, hid]
  refine List.Perm.cons _ ?_
  clear hsame hnode hid
  generalize d.expose = exposed, other.expose = exposed' at hexpose
  cases hexpose with
  | none => rfl
  | some hexposure => exact hexposure.portNodes d.id

theorem wirable_iff (h : d.Reorders other) : d.Wirable ↔ other.Wirable := by
  obtain ⟨-, hexpose⟩ := h
  rw [Wirable, Wirable]
  generalize d.expose = exposed, other.expose = exposed' at hexpose
  cases hexpose with
  | none => simp
  | some hexposure => simpa using hexposure.wirable_iff

end Reorders

end Declaration

namespace Graph

variable {g g' : Graph} {nodes : List Node} {d : Declaration} {declarations : List Declaration}

/-! ## Adding nodes -/

/-- The graph with more nodes, which have no edges. -/
def join (g : Graph) (nodes : List Node) : Graph :=
  ⟨g.vertices ++ nodes.map fun node => { node := node }⟩

theorem nodes_join (g : Graph) (nodes : List Node) : (g.join nodes).nodes = g.nodes ++ nodes := by
  simp [Graph.nodes, join, Function.comp_def]

theorem ids_join (g : Graph) (nodes : List Node) :
    (g.join nodes).ids = g.ids ++ nodes.map (·.id) := by
  rw [ids_eq, nodes_join, List.map_append, ← ids_eq]

theorem join_nil (g : Graph) : g.join [] = g := by simp [join]

theorem join_join (g : Graph) (nodes more : List Node) :
    (g.join nodes).join more = g.join (nodes ++ more) := by
  simp [join]

theorem nodup_of_join (h : (g.join nodes).ids.Nodup) : g.ids.Nodup := by
  rw [ids_join] at h
  exact h.of_append_left

theorem addNode_eq_ok_iff_join (hg : g.ids.Nodup) {node : Node} :
    g.addNode node = .ok g' ↔ (g.join [node]).ids.Nodup ∧ g.join [node] = g' := by
  rw [addNode_eq_ok_iff, ids_join]
  refine and_congr ?_ eq_comm
  simp [List.nodup_append, hg, List.forall_mem_ne']

/-- What is done for every item of a list, adding the nodes that it brings, adds the nodes that all
of them bring; it fails unless every item may be added, and all ids are distinct. -/
theorem foldlM_join {ε α : Type} {f : Graph → α → Except ε Graph} (admits : α → Prop)
    (brings : α → List Node)
    (hf : ∀ {g g' : Graph} {x : α}, g.ids.Nodup → (f g x = .ok g' ↔
      admits x ∧ (g.join (brings x)).ids.Nodup ∧ g.join (brings x) = g'))
    {xs : List α} (hg : g.ids.Nodup) :
    xs.foldlM f g = .ok g' ↔ (∀ x ∈ xs, admits x) ∧
      (g.join (xs.flatMap brings)).ids.Nodup ∧ g.join (xs.flatMap brings) = g' := by
  induction xs generalizing g with
  | nil => simp [pure_eq_ok_iff, join_nil, hg]
  | cons x xs ih =>
    rw [List.foldlM_cons, bind_eq_ok_iff, List.flatMap_cons, ← join_join, List.forall_mem_cons]
    constructor
    · rintro ⟨next, hnext, hrest⟩
      obtain ⟨hadmits, hnodup, rfl⟩ := (hf hg).1 hnext
      obtain ⟨hall, hrest⟩ := (ih hnodup).1 hrest
      exact ⟨⟨hadmits, hall⟩, hrest⟩
    · rintro ⟨⟨hadmits, hall⟩, hrest⟩
      have hnodup := nodup_of_join hrest.1
      exact ⟨_, (hf hg).2 ⟨hadmits, hnodup, rfl⟩, (ih hnodup).2 ⟨hall, hrest⟩⟩

theorem addNodes_eq_ok_iff (hg : g.ids.Nodup) :
    nodes.foldlM addNode g = .ok g' ↔ (g.join nodes).ids.Nodup ∧ g.join nodes = g' := by
  rw [foldlM_join (fun _ => True) ([·])
    (fun hg => (addNode_eq_ok_iff_join hg).trans (by simp)) hg]
  simp

theorem addTo_eq_ok_iff (hg : g.ids.Nodup) :
    d.addTo g = .ok g' ↔ d.Wirable ∧ (g.join d.nodes).ids.Nodup ∧ g.join d.nodes = g' := by
  rw [Declaration.addTo, bind_eq_ok_iff]
  simp only [mapError_eq_ok_iff, addNode_eq_ok_iff_join hg]
  cases hexpose : d.expose with
  | none =>
    simp [pure_eq_ok_iff, Declaration.nodes, Declaration.Wirable, hexpose]
  | some exposure =>
    have hnodes : d.nodes = [d.node] ++ exposure.portNodes d.id := by
      simp [Declaration.nodes, hexpose]
    have hwirable : d.Wirable ↔ exposure.Wirable := by simp [Declaration.Wirable, hexpose]
    rw [hnodes, hwirable, ← join_join]
    constructor
    · rintro ⟨_, ⟨hnodup, rfl⟩, hrest⟩
      obtain ⟨derived, hderived, hadded⟩ := bind_eq_ok_iff.1 hrest
      obtain ⟨hports, rfl⟩ := Exposure.derivedNodes_eq_ok_iff.1 (mapError_eq_ok_iff.1 hderived)
      exact ⟨hports, (addNodes_eq_ok_iff hnodup).1 (mapError_eq_ok_iff.1 hadded)⟩
    · rintro ⟨hports, hadded⟩
      have hnodup := nodup_of_join hadded.1
      exact ⟨_, ⟨hnodup, rfl⟩, bind_eq_ok_iff.2 ⟨_,
        mapError_eq_ok_iff.2 (Exposure.derivedNodes_eq_ok_iff.2 ⟨hports, rfl⟩),
        mapError_eq_ok_iff.2 ((addNodes_eq_ok_iff hnodup).2 hadded)⟩⟩

/-- The nodes that a list of declarations brings, in their order. -/
def declared (declarations : List Declaration) : List Node :=
  declarations.flatMap Declaration.nodes

theorem addAll_eq_ok_iff :
    declarations.foldlM (fun g d => d.addTo g) empty = .ok g ↔
      (∀ d ∈ declarations, d.Wirable) ∧ ((declared declarations).map (·.id)).Nodup ∧
        empty.join (declared declarations) = g := by
  have hempty : (empty : Graph).ids.Nodup := .nil
  refine (foldlM_join Declaration.Wirable Declaration.nodes (fun hg => addTo_eq_ok_iff hg)
    hempty).trans ?_
  rw [ids_join]
  rfl

/-! ## Linking nodes -/

/-- Whether a node of a list depends on an id. -/
def DependsIn (nodes : List Node) (id dependency : String) : Prop :=
  ∃ node ∈ nodes, node.id = id ∧ dependency ∈ node.dependencyIds

/-- Whether the nodes of a list can make up a graph. -/
structure Joinable (nodes : List Node) : Prop where
  nodup : (nodes.map (·.id)).Nodup
  known : ∀ id dependency, DependsIn nodes id dependency → dependency ∈ nodes.map (·.id)
  acyclic : ∀ id, ¬ TransGen (DependsIn nodes) id id

theorem Joinable.perm {nodes' : List Node} (hperm : nodes.Perm nodes') (h : Joinable nodes) :
    Joinable nodes' := by
  have hdepends : DependsIn nodes' = DependsIn nodes := by
    funext id dependency
    simp only [DependsIn, hperm.mem_iff]
  have hids := hperm.map (·.id)
  refine ⟨hids.nodup_iff.1 h.nodup, ?_, ?_⟩
  · rw [hdepends]
    exact fun id dependency hdep => hids.mem_iff.1 (h.known id dependency hdep)
  · rw [hdepends]
    exact h.acyclic

theorem Linked.dependsIn_iff (hg : g.Linked) {id dependency : String} :
    DependsIn g.nodes id dependency ↔ dependency ∈ g.dependencies id := by
  constructor
  · rintro ⟨node, hnode, rfl, hmem⟩
    exact (hg.dependencies node hnode).2 hmem
  · intro hmem
    obtain ⟨i, j, hi, -, -⟩ := hg.coherent.mem_dependencies.1 hmem
    obtain ⟨node, hnode, rfl⟩ := mem_ids.1 (List.mem_of_getElem? hi)
    exact ⟨node, hnode, rfl, (hg.dependencies node hnode).1 hmem⟩

/-- The nodes of a built graph can make it up. -/
theorem Linked.joinable (hg : g.Linked) : Joinable g.nodes := by
  refine ⟨ids_eq g ▸ hg.coherent.nodup, fun id dependency hdep => ?_, fun id hcycle => ?_⟩
  · obtain ⟨i, j, -, hj, -⟩ := hg.coherent.mem_dependencies.1 (hg.dependsIn_iff.1 hdep)
    exact ids_eq g ▸ List.mem_of_getElem? hj
  · exact hg.acyclic id (TransGen.mono (fun _ _ => hg.dependsIn_iff.1) id id hcycle)

theorem exists_linkNodes (hg : ∀ id dependency, DependsIn nodes id dependency →
      id ∈ g.ids ∧ dependency ∈ g.ids) :
    ∃ g', nodes.foldlM linkNode g = .ok g' := by
  have hfold : ∃ g', nodes.foldlM linkNode g = .ok g' ∧ g'.ids = g.ids := by
    refine exists_foldlM (P := fun g' : Graph => g'.ids = g.ids) rfl ?_
    intro before node hnode hids
    refine exists_foldlM (P := fun g' : Graph => g'.ids = g.ids) hids ?_
    intro before' dependency hdependency hids'
    obtain ⟨hid, hdep⟩ := hg node.id dependency ⟨node, hnode, rfl, hdependency⟩
    obtain ⟨next, hnext, hsame⟩ := exists_addEdge (g := before') (hids' ▸ hid) (hids' ▸ hdep)
    exact ⟨next, hnext, hsame.trans hids'⟩
  exact hfold.imp fun _ h => h.1

/-- Nodes that can make up a graph are linked to one that has an order. -/
theorem Joinable.exists_sort (h : Joinable nodes) (hg : g.Unlinked) (hnodes : g.nodes = nodes) :
    ∃ linked order, nodes.foldlM linkNode g = .ok linked ∧ linked.sort = .ok order := by
  have hids : g.ids = nodes.map (·.id) := by rw [ids_eq, hnodes]
  obtain ⟨linked, hlinked⟩ := exists_linkNodes (g := g) fun _ _ hdep => by
    obtain ⟨node, hnode, rfl, -⟩ := id hdep
    rw [hids]
    exact ⟨List.mem_map_of_mem hnode, h.known _ _ hdep⟩
  obtain ⟨hcoherent, -, hdeps⟩ := linkNodes_spec hg.coherent hlinked
  have hedges : ∀ id dependency, dependency ∈ linked.dependencies id →
      DependsIn nodes id dependency := by
    intro id dependency hmem
    obtain ⟨node, hnode, rfl, hdep⟩ :=
      ((hdeps id dependency).1 hmem).resolve_right hg.mem_dependencies
    exact ⟨node, hnode, rfl, hdep⟩
  have hacyclic : linked.Acyclic := fun id hcycle =>
    h.acyclic id (TransGen.mono hedges id id hcycle)
  obtain ⟨order, horder⟩ := hacyclic.exists_sort hcoherent
  exact ⟨linked, order, hlinked, horder⟩

/-! ## The graph of declarations -/

theorem Unlinked.join_empty (h : (nodes.map (·.id)).Nodup) : (Graph.empty.join nodes).Unlinked := by
  have hempty : Graph.empty.ids.Nodup := .nil
  have hadded : nodes.foldlM Graph.addNode Graph.empty = .ok (Graph.empty.join nodes) :=
    (addNodes_eq_ok_iff hempty).2 ⟨by rwa [ids_join], rfl⟩
  exact foldlM_induction hadded .empty fun _ _ _ _ hg hadd => hg.addNode hadd

/-- A graph that is built has the nodes that its declarations bring, in their order. -/
theorem nodes_ofDeclarations (h : ofDeclarations declarations = .ok g) :
    g.nodes = declared declarations := by
  obtain ⟨unlinked, hunlinked, hlink⟩ := bind_eq_ok_iff.1 h
  obtain ⟨linked, hlinked, hsort⟩ := bind_eq_ok_iff.1 hlink
  obtain ⟨order, -, hpure⟩ := bind_eq_ok_iff.1 hsort
  obtain rfl := pure_eq_ok_iff.1 hpure
  obtain ⟨-, hnodup, rfl⟩ := addAll_eq_ok_iff.1 hunlinked
  have hbare := Unlinked.join_empty hnodup
  rw [(linkNodes_spec hbare.coherent (mapError_eq_ok_iff.1 hlinked)).2.1, nodes_join]
  rfl

/-- Declarations are accepted just if their ports can be wired and their nodes make up a graph. -/
theorem exists_ofDeclarations_iff : (∃ g, ofDeclarations declarations = .ok g) ↔
    (∀ d ∈ declarations, d.Wirable) ∧ Joinable (declared declarations) := by
  constructor
  · rintro ⟨g, hg⟩
    obtain ⟨unlinked, hunlinked, -⟩ := bind_eq_ok_iff.1 hg
    refine ⟨(addAll_eq_ok_iff.1 hunlinked).1, ?_⟩
    rw [← nodes_ofDeclarations hg]
    exact (Linked.ofDeclarations hg).joinable
  · rintro ⟨hwirable, hjoinable⟩
    have hnodes : (empty.join (declared declarations)).nodes = declared declarations :=
      nodes_join ..
    obtain ⟨linked, order, hlinked, horder⟩ :=
      hjoinable.exists_sort (Unlinked.join_empty hjoinable.nodup) hnodes
    refine ⟨linked, bind_eq_ok_iff.2 ⟨_, addAll_eq_ok_iff.2 ⟨hwirable, hjoinable.nodup, rfl⟩, ?_⟩⟩
    refine bind_eq_ok_iff.2 ⟨linked, mapError_eq_ok_iff.2 ?_, ?_⟩
    · rwa [hnodes]
    · exact bind_eq_ok_iff.2 ⟨order, mapError_eq_ok_iff.2 horder, rfl⟩

/-! ## Other orders -/

/-- Whether two lists have the same declarations, but for the order of these and of the ports
inside each of them. -/
def Rearranged (declarations declarations' : List Declaration) : Prop :=
  ∃ moved, declarations.Perm moved ∧ List.Forall₂ Declaration.Reorders moved declarations'

namespace Rearranged

variable {declarations' : List Declaration}

theorem declared (h : Rearranged declarations declarations') :
    (declared declarations).Perm (declared declarations') := by
  obtain ⟨moved, hperm, hports⟩ := h
  refine (hperm.flatMap_right _).trans ?_
  clear hperm
  induction hports with
  | nil => exact .nil
  | cons hd _ ih => exact hd.nodes.append ih

theorem wirable_iff (h : Rearranged declarations declarations') :
    (∀ d ∈ declarations, d.Wirable) ↔ ∀ d ∈ declarations', d.Wirable := by
  obtain ⟨moved, hperm, hports⟩ := h
  refine (forall_congr' fun d => imp_congr_left hperm.mem_iff).trans ?_
  clear hperm
  induction hports with
  | nil => simp
  | cons hd _ ih => rw [List.forall_mem_cons, List.forall_mem_cons, hd.wirable_iff, ih]

/-- Declarations are accepted in every order, or in none. -/
theorem accepted_iff (h : Rearranged declarations declarations') :
    (∃ g, ofDeclarations declarations = .ok g) ↔ ∃ g', ofDeclarations declarations' = .ok g' := by
  rw [exists_ofDeclarations_iff, exists_ofDeclarations_iff, h.wirable_iff]
  exact and_congr_right fun _ => ⟨.perm h.declared, .perm h.declared.symm⟩

/-- Graphs of the same declarations have the same nodes. -/
theorem nodes_perm (h : Rearranged declarations declarations')
    (hg : ofDeclarations declarations = .ok g)
    (hg' : ofDeclarations declarations' = .ok g') : g.nodes.Perm g'.nodes := by
  rw [nodes_ofDeclarations hg, nodes_ofDeclarations hg']
  exact h.declared

end Rearranged

end Graph

end Converge
