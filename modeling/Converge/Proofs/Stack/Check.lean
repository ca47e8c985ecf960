import Converge.Proofs.Graph.Rearrangement
import Converge.Proofs.Resource.Reference
import Converge.Stack.Check

/-!
# Checked stacks make up graphs

The check of a declaration and the construction of its graph go over the same declarations and
ports, each in its own way. What the check lets pass the construction does not refuse, but for two
faults that only the graph shows: a declaration that names an id no node has, and a cycle.

Main statement: `Graph.ofStack_of_check`.
-/

namespace Converge

/-! ## Findings -/

namespace Findings

@[simp] theorem errors_empty : empty.errors = [] := rfl

@[simp] theorem errors_append (a b : Findings) : (a ++ b).errors = a.errors ++ b.errors := rfl

@[simp] theorem errors_errorIf_eq_nil {violated : Bool} {field message : String} :
    (errorIf violated field message).errors = [] ↔ violated = false := by
  cases violated <;> simp [errorIf]

end Findings

/-! ## Ids -/

/-- Neither blanks nor points are among the characters of ids. -/
theorem not_isBlank_of_isAlphanum {c : Char} (h : (c.isAlphanum || c == '-' || c == '_') = true) :
    Text.isBlank c = false ∧ c ≠ '.' := by
  have hletters : c.isAlphanum = (decide (65 ≤ c.val ∧ c.val ≤ 90) ||
      decide (97 ≤ c.val) && decide (c.val ≤ 122) || decide (48 ≤ c.val) && decide (c.val ≤ 57)) :=
    rfl
  have hrange : (((65 ≤ c.toNat ∧ c.toNat ≤ 90 ∨ 97 ≤ c.toNat ∧ c.toNat ≤ 122) ∨
      48 ≤ c.toNat ∧ c.toNat ≤ 57) ∨ c = '-') ∨ c = '_' := by
    simpa [hletters, UInt32.le_iff_toNat_le] using h
  rcases hrange with (hrange | rfl) | rfl
  · refine ⟨?_, fun hpoint => ?_⟩
    · simp [Text.isBlank]
      omega
    · subst hpoint
      revert hrange
      decide
  · decide
  · decide

/-- An id of the form that declarations have to keep can stand in a reference. -/
theorem Reference.isName_of_isResourceId {id : String} (h : isResourceId id = true) :
    Reference.IsName id := by
  unfold isResourceId at h
  split at h
  · cases h
  · next first rest hid =>
    obtain ⟨hfirst, hrest⟩ := Bool.and_eq_true_iff.1 h
    refine .of_forall (by simp [hid]) fun c hc => not_isBlank_of_isAlphanum ?_
    rcases List.mem_cons.1 (hid ▸ hc) with rfl | hc
    · simp [Char.isAlphanum, hfirst]
    · exact List.all_eq_true.1 hrest c hc

/-! ## Taken ids -/

/-- Whether a list of taken ids grows by others, none of them twice or taken already. -/
structure Takes (taken ids taken' : List String) : Prop where
  eq : taken' = ids.reverse ++ taken
  nodup : taken.Nodup → taken'.Nodup

namespace Takes

variable {taken taken' taken'' ids more : List String}

theorem nil : Takes taken [] taken := ⟨rfl, id⟩

theorem append (h : Takes taken ids taken') (h' : Takes taken' more taken'') :
    Takes taken (ids ++ more) taken'' where
  eq := by rw [h'.eq, h.eq, List.reverse_append, List.append_assoc]
  nodup := h'.nodup ∘ h.nodup

theorem singleton {id : String} (h : id ∉ taken) : Takes taken [id] (id :: taken) :=
  ⟨rfl, List.nodup_cons.2 ∘ And.intro h⟩

/-- What is taken when nothing was before. -/
theorem nodup_of_nil (h : Takes [] ids taken') : ids.Nodup := by
  have hnodup := h.nodup .nil
  rwa [h.eq, List.append_nil, List.nodup_reverse] at hnodup

end Takes

/-! ## What a node names -/

namespace Node

theorem mem_dependencyIds_iff {n : Node} {id : String} :
    id ∈ n.dependencyIds ↔ id ∈ n.dependsOn ∨
      ∃ value ∈ n.attributes.values, ∃ r ∈ value.references, r.nodeId = id := by
  simp only [dependencyIds, referencedIds, references, mem_sortedNames, List.mem_append,
    List.mem_map, List.mem_flatMap]
  grind

/-- A node that waits for what its attributes refer to alone, which are those of a list. -/
theorem exists_reference_of_ofList {n : Node} {entries : List (String × AttributeValue)}
    (hattributes : n.attributes = .ofList entries) (hwait : n.dependsOn = []) {id : String}
    (hid : id ∈ n.dependencyIds) :
    ∃ r ∈ AttributeValue.entryReferences entries, r.nodeId = id := by
  obtain hmem | ⟨value, hvalue, r, hr, hid⟩ := mem_dependencyIds_iff.1 hid
  · rw [hwait] at hmem
    cases hmem
  obtain ⟨name, hname⟩ := Table.mem_values.1 hvalue
  have hmem := Table.mem_of_get?_ofList (hattributes ▸ hname)
  refine ⟨r, ?_, hid⟩
  clear hattributes hvalue hname
  induction entries with
  | nil => cases hmem
  | cons entry rest ih =>
    rw [AttributeValue.entryReferences, List.mem_append]
    rcases List.mem_cons.1 hmem with rfl | hlater
    · exact .inl hr
    · exact .inr (ih hlater)

end Node

/-! ## Ports -/

theorem checkDerivedIds_spec {field : String} {taken ids : List String}
    (h : (checkDerivedIds field taken ids).1.errors = []) :
    Takes taken ids (checkDerivedIds field taken ids).2 := by
  induction ids generalizing taken with
  | nil => exact .nil
  | cons id rest ih =>
    simp only [checkDerivedIds, Findings.errors_append, List.append_eq_nil_iff,
      Findings.errors_errorIf_eq_nil] at h
    have hfree : id ∉ taken := by simpa using h.1
    exact (Takes.singleton hfree).append (ih h.2)

namespace Exposure

/-- Ports in which a check finds nothing have numbers of their own, and so have their derived
nodes ids. -/
theorem checkPorts_spec {field : String} {j : Nat} {numbers : List Nat} {taken : List String}
    {ports : List Port} (h : (checkPorts field j numbers taken ports).1.errors = []) :
    (∀ port ∈ ports, port.number ≠ 0 ∧ port.number ∉ numbers) ∧
      (ports.map (·.number)).Nodup ∧
      Takes taken (ports.flatMap fun port => PortWiring.idsOf port.number)
        (checkPorts field j numbers taken ports).2 := by
  induction ports generalizing j numbers taken with
  | nil => exact ⟨by simp, by simp, .nil⟩
  | cons port rest ih =>
    unfold checkPorts at h ⊢
    by_cases hzero : port.number = 0
    · simp [hzero] at h
    by_cases htwice : port.number ∈ numbers
    · simp [hzero, htwice] at h
    simp only [if_neg hzero, List.contains_iff_mem, if_neg htwice, Findings.errors_append,
      List.append_eq_nil_iff] at h ⊢
    obtain ⟨⟨hderived, -⟩, hmore⟩ := h
    obtain ⟨hports, hnodup, htakes⟩ := ih hmore
    refine ⟨List.forall_mem_cons.2 ⟨⟨hzero, htwice⟩, fun other hother => ?_⟩, ?_, ?_⟩
    · exact ⟨(hports other hother).1, fun hmem =>
        (hports other hother).2 (List.mem_cons_of_mem _ hmem)⟩
    · refine List.nodup_cons.2 ⟨fun hmem => ?_, hnodup⟩
      obtain ⟨other, hother, heq⟩ := List.mem_map.1 hmem
      exact (hports other hother).2 (heq ▸ List.mem_cons_self ..)
    · exact (checkDerivedIds_spec hderived).append htakes

theorem checkPeer_spec {declarations : List Declaration} {field id : String} {kind : Kind}
    (h : (checkPeer declarations field id kind).errors = []) : ∃ d ∈ declarations, d.id = id := by
  unfold checkPeer at h
  split at h
  · simp at h
  · next d hd =>
    exact ⟨d, List.mem_reverse.1 (List.mem_of_find?_eq_some hd), by
      simpa using List.find?_some hd⟩

/-- The ids of resources that an exposure names. -/
def peers (exposure : Exposure) : List String :=
  [exposure.network, exposure.securityGroup, exposure.loadBalancer]

theorem check_spec {exposure : Exposure} {declarations : List Declaration}
    {service field : String} {taken : List String}
    (h : (exposure.check declarations service field taken).1.errors = []) :
    exposure.Wirable ∧ (∀ id ∈ exposure.peers, ∃ d ∈ declarations, d.id = id) ∧
      Takes taken ((exposure.portNodes service).map (·.id))
        (exposure.check declarations service field taken).2 := by
  simp only [check, Findings.errors_append, List.append_eq_nil_iff] at h
  obtain ⟨⟨⟨⟨hnetwork, hgroup⟩, hbalancer⟩, -⟩, hports⟩ := h
  obtain ⟨hnumbers, hnodup, htakes⟩ := checkPorts_spec hports
  refine ⟨⟨fun port hport => (hnumbers port hport).1, hnodup⟩, ?_, ?_⟩
  · simp only [peers, List.forall_mem_cons, List.not_mem_nil, false_imp_iff, implies_true, and_true]
    exact ⟨checkPeer_spec hnetwork, checkPeer_spec hgroup, checkPeer_spec hbalancer⟩
  · rw [portNodes, List.map_flatMap]
    exact htakes

theorem targetGroup_mem_portNodes {exposure : Exposure} {service : String} {port : Port}
    (hport : port ∈ exposure.ports) :
    exposure.targetGroup service port ∈ exposure.portNodes service :=
  List.mem_flatMap.2 ⟨port, hport, List.mem_cons_self ..⟩

/-- What the nodes of ports depend on: target groups among them, the service and the peers of the
exposure. -/
theorem mem_dependencyIds_portNodes {exposure : Exposure} {service : String} {node : Node}
    (hnode : node ∈ exposure.portNodes service) {id : String} (hid : id ∈ node.dependencyIds) :
    id = service ∨ id ∈ exposure.peers ∨
      ∃ port ∈ exposure.ports, (exposure.targetGroup service port).id = id := by
  obtain ⟨port, hport, hnode⟩ := List.mem_flatMap.1 hnode
  simp only [wirePort, PortWiring.nodes, List.mem_cons, List.not_mem_nil, or_false] at hnode
  rcases hnode with rfl | rfl | rfl
  · obtain ⟨r, hr, rfl⟩ := Node.exists_reference_of_ofList rfl rfl hid
    have hr : r = ⟨exposure.network, "id"⟩ ∨ r = ⟨service, "id"⟩ := by
      cases hcheck : port.healthCheck <;>
        simpa [hcheck, AttributeValue.references, AttributeValue.entryReferences,
          AttributeValue.output, AttributeValue.natural, AttributeValue.text,
          PortWiring.healthCheck] using hr
    rcases hr with rfl | rfl
    · exact .inr (.inl (by simp [peers]))
    · exact .inl rfl
  · obtain ⟨r, hr, rfl⟩ := Node.exists_reference_of_ofList rfl rfl hid
    have hr : r = ⟨PortWiring.targetGroupId port.number, "arn"⟩ ∨
        r = ⟨exposure.loadBalancer, "arn"⟩ := by
      simpa [AttributeValue.references, AttributeValue.entryReferences, AttributeValue.output,
        AttributeValue.natural, AttributeValue.text] using hr
    rcases hr with rfl | rfl
    · exact .inr (.inr ⟨port, hport, rfl⟩)
    · exact .inr (.inl (by simp [peers]))
  · obtain ⟨r, hr, rfl⟩ := Node.exists_reference_of_ofList rfl rfl hid
    have hr : r = ⟨exposure.securityGroup, "id"⟩ := by
      simpa [AttributeValue.references, AttributeValue.entryReferences, AttributeValue.output,
        AttributeValue.natural, AttributeValue.text] using hr
    exact .inr (.inl (by simp [hr, peers]))

end Exposure

/-! ## Declarations -/

namespace Declaration

/-- Whether a declaration waits for an id by name, or refers to it in one of its attributes. -/
def Mentions (d : Declaration) (id : String) : Prop :=
  id ∈ d.dependsOn ∨ ∃ value ∈ d.attributes.values, ∃ r ∈ value.references, r.nodeId = id

theorem mem_dependencyIds_node {d : Declaration} {id : String} :
    id ∈ d.node.dependencyIds ↔ d.Mentions id := by
  rw [Node.mem_dependencyIds_iff, Mentions]
  exact or_congr_left mem_sortedNames

/-- What a check without errors says of a declaration. -/
structure Sound (d : Declaration) (declarations : List Declaration) : Prop where
  isId : isResourceId d.id = true
  wirable : d.Wirable
  peers : ∀ exposure, d.expose = some exposure →
    ∀ id ∈ exposure.peers, ∃ other ∈ declarations, other.id = id

theorem check_spec {d : Declaration} {declarations : List Declaration} {i : Nat}
    {taken : List String} (h : (d.check declarations i taken).1.errors = []) :
    d.Sound declarations ∧
      Takes taken (d.nodes.map (·.id)) (d.check declarations i taken).2 := by
  unfold check at h ⊢
  cases hexpose : d.expose with
  | none =>
    simp only [hexpose, Findings.errors_append, List.append_eq_nil_iff,
      Findings.errors_errorIf_eq_nil] at h ⊢
    have hfree : d.id ∉ taken := by simpa using h.1.1.2
    have hnodes : d.nodes.map (·.id) = [d.id] := by simp [nodes, hexpose, node]
    refine ⟨⟨by simpa using h.1.1.1, fun exposure hsome => ?_, fun exposure hsome => ?_⟩, ?_⟩
    · cases hexpose.symm.trans hsome
    · cases hexpose.symm.trans hsome
    · rw [hnodes]
      exact .singleton hfree
  | some exposure =>
    simp only [hexpose] at h ⊢
    by_cases hservice : d.kind = .service
    · simp only [if_pos hservice, Findings.errors_append, List.append_eq_nil_iff,
        Findings.errors_errorIf_eq_nil] at h ⊢
      have hfree : d.id ∉ taken := by simpa using h.1.1.1.2
      obtain ⟨hwirable, hpeers, htakes⟩ := Exposure.check_spec h.2
      have hnodes : d.nodes.map (·.id) = [d.id] ++ (exposure.portNodes d.id).map (·.id) := by
        simp [nodes, hexpose, node]
      refine ⟨⟨by simpa using h.1.1.1.1, fun other hsome => ?_, fun other hsome => ?_⟩, ?_⟩
      · cases hexpose.symm.trans hsome
        exact hwirable
      · cases hexpose.symm.trans hsome
        exact hpeers
      · rw [hnodes]
        exact (Takes.singleton hfree).append htakes
    · simp [hservice] at h

theorem checkAll_spec {declarations rest : List Declaration} {i : Nat} {taken : List String}
    (h : (checkAll declarations i taken rest).errors = []) :
    (∀ d ∈ rest, d.Sound declarations) ∧
      ∃ taken', Takes taken ((Graph.declared rest).map (·.id)) taken' := by
  induction rest generalizing i taken with
  | nil => exact ⟨by simp, taken, .nil⟩
  | cons d rest ih =>
    simp only [checkAll, Findings.errors_append, List.append_eq_nil_iff] at h
    obtain ⟨hsound, htakes⟩ := check_spec h.1
    obtain ⟨hall, taken', hrest⟩ := ih h.2
    refine ⟨List.forall_mem_cons.2 ⟨hsound, hall⟩, taken', ?_⟩
    rw [Graph.declared, List.flatMap_cons, List.map_append]
    exact htakes.append hrest

end Declaration

theorem Stack.check_spec {s : Stack} (h : s.check.errors = []) :
    (∀ d ∈ s.resources, d.Sound s.resources) ∧
      ((Graph.declared s.resources).map (·.id)).Nodup := by
  simp only [check, Findings.errors_append, List.append_eq_nil_iff] at h
  cases hresources : s.resources with
  | nil => exact ⟨by simp, .nil⟩
  | cons d rest =>
    have hall := h.2
    simp only [hresources, List.isEmpty_cons, Bool.false_eq_true, if_false] at hall
    obtain ⟨hsound, taken', htakes⟩ := Declaration.checkAll_spec hall
    exact ⟨hsound, htakes.nodup_of_nil⟩

theorem Stack.isProjectName_of_check {s : Stack} (h : s.check.errors = []) :
    isProjectName s.project.name = true := by
  simp only [check, Project.check, Findings.errors_append, List.append_eq_nil_iff] at h
  obtain ⟨⟨⟨⟨hname, -⟩, -⟩, -⟩, -⟩ := h
  split at hname
  · simp at hname
  · simpa using hname

/-- Whether the ids from which references of exposed ports are made can stand in references. -/
def Stack.NamesPlainly (s : Stack) : Prop :=
  ∀ d ∈ s.resources, ∀ exposure ∈ d.expose, ∀ id ∈ d.id :: exposure.peers, Reference.IsName id

theorem Stack.namesPlainly_of_check {s : Stack} (h : s.check.errors = []) : s.NamesPlainly := by
  intro d hd exposure hexposure id hid
  have hsound := (check_spec h).1
  rcases List.mem_cons.1 hid with rfl | hid
  · exact Reference.isName_of_isResourceId (hsound d hd).isId
  · obtain ⟨other, hother, rfl⟩ := (hsound d hd).peers exposure hexposure id hid
    exact Reference.isName_of_isResourceId (hsound other hother).isId

/-! ## Graphs -/

namespace Graph

variable {g : Graph} {nodes : List Node} {declarations : List Declaration}

/-- Linking fails only where a node depends on an id that no node has. -/
theorem linkNodes_error (hnodes : ∀ node ∈ nodes, node.id ∈ g.ids) {cause : GraphError}
    (h : nodes.foldlM linkNode g = .error cause) :
    ∃ node ∈ nodes, ∃ id ∈ node.dependencyIds, id ∉ g.ids ∧ cause = .unknownNode id := by
  have hkeeps {source : String} : ∀ (before : Graph) (target : String) (after : Graph),
      before.ids = g.ids → before.addEdge source target = .ok after → after.ids = g.ids := by
    intro before target after hsame hedge
    rw [ids_eq, nodes_addEdge hedge, ← ids_eq, hsame]
  obtain ⟨before, hsame, node, hnode, hfails⟩ :=
    exists_of_foldlM_eq_error (P := fun before : Graph => before.ids = g.ids) h rfl
      fun _ _ _ _ hsame hlinked =>
        foldlM_induction (P := fun before : Graph => before.ids = g.ids) hlinked hsame
          fun _ _ _ _ => hkeeps _ _ _
  obtain ⟨before', hsame', id, hid, hfails'⟩ :=
    exists_of_foldlM_eq_error (P := fun before : Graph => before.ids = g.ids) hfails hsame
      fun _ _ _ _ => hkeeps _ _ _
  refine ⟨node, hnode, id, hid, ?_⟩
  have hsource : node.id ∈ before'.ids := hsame' ▸ hnodes node hnode
  by_cases htarget : id ∈ before'.ids
  · obtain ⟨after, hafter, -⟩ := exists_addEdge hsource htarget
    cases hafter.symm.trans hfails'
  · obtain ⟨a, ha⟩ := Option.isSome_iff_exists.1 (position?_isSome_iff.2 hsource)
    have hb : before'.position? id = none :=
      Option.not_isSome_iff_eq_none.1 fun hsome => htarget (position?_isSome_iff.1 hsome)
    rw [addEdge, require, require, ha, hb] at hfails'
    exact ⟨hsame' ▸ htarget, (Except.error.inj hfails').symm⟩

/-- The ids of a declaration and of its ports are those of nodes. -/
theorem mem_declared {d : Declaration} (hd : d ∈ declarations) {node : Node}
    (hnode : node ∈ d.nodes) : node ∈ declared declarations :=
  List.mem_flatMap.2 ⟨d, hd, hnode⟩

theorem portNodes_subset_nodes {d : Declaration} {exposure : Exposure}
    (hexpose : d.expose = some exposure) : exposure.portNodes d.id ⊆ d.nodes := by
  simp [Declaration.nodes, hexpose]

/-- Whatever the nodes of ports depend on is the id of a node, if a check finds no error. -/
theorem known_of_port (hsound : ∀ d ∈ declarations, d.Sound declarations) {d : Declaration}
    (hd : d ∈ declarations) {exposure : Exposure} (hexpose : d.expose = some exposure)
    {node : Node} (hnode : node ∈ exposure.portNodes d.id) {id : String}
    (hid : id ∈ node.dependencyIds) : id ∈ (declared declarations).map (·.id) := by
  have hown {other : Declaration} (hother : other ∈ declarations) :
      other.id ∈ (declared declarations).map (·.id) :=
    List.mem_map.2 ⟨other.node, mem_declared hother (List.mem_cons_self ..), rfl⟩
  rcases Exposure.mem_dependencyIds_portNodes hnode hid with rfl | hpeer | ⟨port, hport, rfl⟩
  · exact hown hd
  · obtain ⟨other, hother, rfl⟩ := (hsound d hd).peers exposure hexpose id hpeer
    exact hown hother
  · exact List.mem_map_of_mem (mem_declared hd (portNodes_subset_nodes hexpose
      (Exposure.targetGroup_mem_portNodes hport)))

/-- A stack in which a check finds no error has a graph, or names an id that no node has, or has
a cycle. Nothing is found wrong with its ids and ports, and it is never a node derived from a port
that names an unknown id. -/
theorem ofStack_of_check {s : Stack} (h : s.check.errors = []) :
    (∃ g, ofStack s = .ok g) ∨
    (∃ id, ofStack s = .error (.graph (.unknownNode id)) ∧
      (∃ d ∈ s.resources, d.Mentions id) ∧
      ∀ d ∈ s.resources, ∀ exposure, d.expose = some exposure →
        ∀ node ∈ exposure.portNodes d.id, id ∉ node.dependencyIds) ∨
    ∃ path, ofStack s = .error (.graph (.cycle path)) := by
  obtain ⟨hsound, hnodup⟩ := Stack.check_spec h
  have hnodes : (empty.join (declared s.resources)).nodes = declared s.resources := nodes_join ..
  have hids : (empty.join (declared s.resources)).ids = (declared s.resources).map (·.id) := by
    rw [ids_eq, hnodes]
  have hadded := addAll_eq_ok_iff.2 ⟨fun d hd => (hsound d hd).wirable, hnodup, rfl⟩
  cases hbuilt : ofStack s with
  | ok g => exact .inl ⟨g, rfl⟩
  | error cause =>
    refine .inr ?_
    rw [ofStack, ofDeclarations, hadded] at hbuilt
    rcases bind_eq_error_iff.1 hbuilt with hadd | ⟨unlinked, hunlinked, hrest⟩
    · cases hadd
    cases hunlinked
    rcases bind_eq_error_iff.1 hrest with hlink | ⟨linked, -, hsort⟩
    · obtain ⟨inner, hfails, rfl⟩ := mapError_eq_error_iff.1 hlink
      rw [hnodes] at hfails
      obtain ⟨node, hnode, id, hid, hunknown, rfl⟩ :=
        linkNodes_error (fun node hnode => hids ▸ List.mem_map_of_mem hnode) hfails
      rw [hids] at hunknown
      refine .inl ⟨id, rfl, ?_, fun d hd exposure hexpose other hother hmem =>
        hunknown (known_of_port hsound hd hexpose hother hmem)⟩
      obtain ⟨d, hd, hnode⟩ := List.mem_flatMap.1 hnode
      rcases List.mem_cons.1 hnode with rfl | hport
      · exact ⟨d, hd, Declaration.mem_dependencyIds_node.1 hid⟩
      · cases hexpose : d.expose with
        | none => simp [hexpose] at hport
        | some exposure =>
          simp only [hexpose, Option.map_some, Option.getD_some] at hport
          exact absurd (known_of_port hsound hd hexpose hport hid) hunknown
    · rcases bind_eq_error_iff.1 hsort with hcycle | ⟨order, -, hdone⟩
      · obtain ⟨inner, hfails, rfl⟩ := mapError_eq_error_iff.1 hcycle
        obtain ⟨-, rfl⟩ := sort_eq_error_iff.1 hfails
        exact .inr ⟨_, rfl⟩
      · exact absurd hdone pure_ne_error

/-- Two ports of a service that waits for a resource which is declared nowhere. -/
def forlornStack : Stack where
  project := { name := "shop" }
  resources := [
    { id := "net", kind := .network },
    { id := "web", kind := .service, dependsOn := ["db"],
      expose := some { container := "app", network := "net", securityGroup := "group",
                       loadBalancer := "balancer", ports := [{ number := 80 }, { number := 443 }] } },
    { id := "group", kind := .securityGroup, attributes := .ofList [("network", .output "net" "id")] },
    { id := "balancer", kind := .loadBalancer }]

/-- The check lets the stack pass, and its graph tells of the id that a declaration names. -/
theorem ofStack_of_check_forlorn : forlornStack.check.errors = [] ∧
    ∃ id, ofStack forlornStack = .error (.graph (.unknownNode id)) ∧
      ∃ d ∈ forlornStack.resources, d.Mentions id := by
  have hvalid : forlornStack.check.errors = [] := by decide +kernel
  have hfails : (match ofStack forlornStack with | .ok _ => none | .error cause => some cause) =
      some (.graph (.unknownNode "db")) := by decide +kernel
  refine ⟨hvalid, ?_⟩
  rcases ofStack_of_check hvalid with ⟨g, hg⟩ | ⟨id, hunknown, hmentions, -⟩ | ⟨path, hcycle⟩
  · rw [hg] at hfails
    cases hfails
  · exact ⟨id, hunknown, hmentions⟩
  · rw [hcycle] at hfails
    cases hfails

end Graph

end Converge
