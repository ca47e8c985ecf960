import Converge.Graph.Basic
import Mathlib.Data.List.Nodup

/-!
# Coherent graphs

A graph is coherent if its ids are distinct and its two lists of neighbours tell the same edges.
Adding nodes and edges keeps a graph coherent.

Main statements: `Graph.Coherent.addNode` and `Graph.Coherent.addEdge` say that construction keeps
coherence, `Graph.Coherent.make` that any sequence of additions makes a coherent graph, and `Graph.Coherent.mem_dependencies` and `Graph.Coherent.mem_dependents` read the edges
off the ids.
-/

namespace Converge

namespace Positions

theorem nodup_of_pairwise {set : List Nat} (h : set.Pairwise (· < ·)) : set.Nodup :=
  h.imp fun hlt => Nat.ne_of_lt hlt

end Positions

namespace Graph

variable {g g' : Graph}

/-- The ids are distinct, neighbours are positions of the graph, listed in order, and an edge is
known at both of its ends. -/
structure Coherent (g : Graph) : Prop where
  nodup : g.ids.Nodup
  lt : ∀ {i j}, j ∈ g.dependenciesAt i → j < g.size
  converse : ∀ {i j}, j ∈ g.dependenciesAt i ↔ i ∈ g.dependentsAt j
  dependencies_increasing : ∀ i, (g.dependenciesAt i).Pairwise (· < ·)
  dependents_increasing : ∀ i, (g.dependentsAt i).Pairwise (· < ·)

/-! ## Positions and ids -/

theorem length_ids (g : Graph) : g.ids.length = g.size := List.length_map ..

theorem ids_getElem? (g : Graph) (i : Nat) : g.ids[i]? = g.vertices[i]?.map (·.node.id) :=
  List.getElem?_map ..

theorem nodes_getElem? (g : Graph) (i : Nat) : g.nodes[i]? = g.vertices[i]?.map (·.node) :=
  List.getElem?_map ..

theorem ids_eq (g : Graph) : g.ids = g.nodes.map (·.id) := by
  simp [ids, nodes]

theorem ids_getElem?_of_position? {id : String} {i : Nat} (h : g.position? id = some i) :
    g.ids[i]? = some id := by
  obtain ⟨hi, heq, -⟩ := List.findIdx?_eq_some_iff_getElem.1 h
  rw [ids_getElem?, List.getElem?_eq_getElem hi]
  simpa using heq

theorem position?_isSome_iff {id : String} : (g.position? id).isSome ↔ id ∈ g.ids := by
  rw [position?, List.findIdx?_isSome, List.any_eq_true]
  simp [ids]

theorem position?_eq_none_iff {id : String} : g.position? id = none ↔ id ∉ g.ids := by
  rw [← position?_isSome_iff, Bool.not_eq_true, Option.isSome_eq_false_iff, Option.isNone_iff_eq_none]

theorem contains_iff {id : String} : g.contains id = true ↔ id ∈ g.ids := position?_isSome_iff

/-- Where ids are distinct, an id has one position. -/
theorem ids_inj (h : g.ids.Nodup) {i j : Nat} {id : String} (hi : g.ids[i]? = some id)
    (hj : g.ids[j]? = some id) : i = j :=
  (List.getElem?_inj (List.getElem?_eq_some_iff.1 hi).1 h).1 (hi.trans hj.symm)

theorem position?_eq_some_iff (h : g.ids.Nodup) {id : String} {i : Nat} :
    g.position? id = some i ↔ g.ids[i]? = some id := by
  constructor
  · exact ids_getElem?_of_position?
  · intro hi
    have hmem : id ∈ g.ids := List.mem_of_getElem? hi
    obtain ⟨j, hj⟩ := Option.isSome_iff_exists.1 (position?_isSome_iff.2 hmem)
    rw [hj, ids_inj h hi (ids_getElem?_of_position? hj)]

theorem node?_eq_some_iff (h : g.ids.Nodup) {id : String} {node : Node} :
    g.node? id = some node ↔ node ∈ g.nodes ∧ node.id = id := by
  constructor
  · intro hnode
    obtain ⟨v, hv, rfl⟩ := Option.map_eq_some_iff.1 hnode
    have hid := List.find?_some hv
    exact ⟨List.mem_map.2 ⟨v, List.mem_of_find?_eq_some hv, rfl⟩, by simpa using hid⟩
  · rintro ⟨hmem, rfl⟩
    obtain ⟨v, hv, rfl⟩ := List.mem_map.1 hmem
    have hsome : (g.vertices.find? fun w => w.node.id == v.node.id).isSome :=
      List.find?_isSome.2 ⟨v, hv, by simp⟩
    obtain ⟨w, hw⟩ := Option.isSome_iff_exists.1 hsome
    have hid : w.node.id = v.node.id := by simpa using List.find?_some hw
    have heq : w = v := List.inj_on_of_nodup_map h (List.mem_of_find?_eq_some hw) hv hid
    rw [node?, hw, heq]
    rfl

theorem mem_ids {id : String} : id ∈ g.ids ↔ ∃ node ∈ g.nodes, node.id = id := by
  rw [ids_eq, List.mem_map]

theorem mem_idsAt {positions : List Nat} {id : String} :
    id ∈ g.idsAt positions ↔ ∃ i ∈ positions, g.ids[i]? = some id := by
  simp only [idsAt, List.mem_filterMap, ids_getElem?]

/-! ## Adding a node -/

theorem addNode_eq_ok_iff {node : Node} :
    g.addNode node = .ok g' ↔ node.id ∉ g.ids ∧ g' = ⟨g.vertices ++ [{ node := node }]⟩ := by
  rw [addNode]
  cases hc : g.contains node.id with
  | true => simp [contains_iff.1 hc]
  | false =>
    have hnot : node.id ∉ g.ids := fun hmem => by
      rw [contains_iff.2 hmem] at hc
      cases hc
    simp [hnot, eq_comm]

theorem nodes_addNode {node : Node} (h : g.addNode node = .ok g') :
    g'.nodes = g.nodes ++ [node] := by
  obtain ⟨-, rfl⟩ := addNode_eq_ok_iff.1 h
  simp [nodes]

theorem exists_addNode {node : Node} (h : node.id ∉ g.ids) :
    ∃ g', g.addNode node = .ok g' ∧ g'.ids = g.ids ++ [node.id] := by
  have hadd := addNode_eq_ok_iff.2 ⟨h, rfl⟩
  exact ⟨_, hadd, by rw [ids_eq, nodes_addNode hadd, List.map_append, ← ids_eq]; rfl⟩

theorem dependenciesAt_addNode {node : Node} (h : g.addNode node = .ok g') (i : Nat) :
    g'.dependenciesAt i = g.dependenciesAt i := by
  obtain ⟨-, rfl⟩ := addNode_eq_ok_iff.1 h
  rw [dependenciesAt, dependenciesAt, List.getElem?_append]
  split
  · rfl
  · next hi =>
    rw [List.getElem?_eq_none (Nat.le_of_not_lt hi)]
    cases hd : i - g.vertices.length <;> simp

theorem dependentsAt_addNode {node : Node} (h : g.addNode node = .ok g') (i : Nat) :
    g'.dependentsAt i = g.dependentsAt i := by
  obtain ⟨-, rfl⟩ := addNode_eq_ok_iff.1 h
  rw [dependentsAt, dependentsAt, List.getElem?_append]
  split
  · rfl
  · next hi =>
    rw [List.getElem?_eq_none (Nat.le_of_not_lt hi)]
    cases hd : i - g.vertices.length <;> simp

/-! ## Adding an edge -/

theorem nodes_link (g : Graph) (a b : Nat) : (g.link a b).nodes = g.nodes := by
  refine List.ext_getElem? fun i => ?_
  rw [nodes_getElem?, nodes_getElem?, link, List.getElem?_modify, List.getElem?_modify]
  cases g.vertices[i]? with
  | none => rfl
  | some v =>
    simp only [Option.map_some]
    split <;> split <;> rfl

theorem ids_link (g : Graph) (a b : Nat) : (g.link a b).ids = g.ids := by
  rw [ids_eq, ids_eq, nodes_link]

theorem size_link (g : Graph) (a b : Nat) : (g.link a b).size = g.size := by
  rw [← length_ids, ← length_ids, ids_link]

theorem dependenciesAt_link (g : Graph) {a : Nat} (b : Nat) (ha : a < g.size) (i : Nat) :
    (g.link a b).dependenciesAt i =
      if i = a then Positions.insert b (g.dependenciesAt i) else g.dependenciesAt i := by
  rw [dependenciesAt, dependenciesAt, link, List.getElem?_modify, List.getElem?_modify]
  by_cases hia : i = a
  · subst hia
    rw [List.getElem?_eq_getElem ha]
    by_cases hib : b = i <;> simp [hib]
  · cases g.vertices[i]? with
    | none => simp [hia]
    | some v => by_cases hib : b = i <;> simp [hia, hib, Ne.symm hia]

theorem dependentsAt_link (g : Graph) (a : Nat) {b : Nat} (hb : b < g.size) (i : Nat) :
    (g.link a b).dependentsAt i =
      if i = b then Positions.insert a (g.dependentsAt i) else g.dependentsAt i := by
  rw [dependentsAt, dependentsAt, link, List.getElem?_modify, List.getElem?_modify]
  by_cases hib : i = b
  · subst hib
    rw [List.getElem?_eq_getElem hb]
    by_cases hia : a = i <;> simp [hia]
  · cases g.vertices[i]? with
    | none => simp [hib]
    | some v => by_cases hia : a = i <;> simp [hia, hib, Ne.symm hib]

theorem require_eq_ok_iff {id : String} {i : Nat} :
    g.require id = .ok i ↔ g.position? id = some i := by
  rw [require]
  cases g.position? id <;> simp

theorem addEdge_eq_ok_iff {source target : String} :
    g.addEdge source target = .ok g' ↔
      ∃ a b, g.position? source = some a ∧ g.position? target = some b ∧ g' = g.link a b := by
  constructor
  · intro h
    rw [addEdge] at h
    cases ha : g.require source with
    | error e => rw [ha] at h; cases h
    | ok a =>
      cases hb : g.require target with
      | error e => rw [ha, hb] at h; cases h
      | ok b =>
        rw [ha, hb] at h
        cases h
        exact ⟨a, b, require_eq_ok_iff.1 ha, require_eq_ok_iff.1 hb, rfl⟩
  · rintro ⟨a, b, ha, hb, rfl⟩
    rw [addEdge, require_eq_ok_iff.2 ha, require_eq_ok_iff.2 hb]
    rfl

theorem exists_addEdge {source target : String} (hsource : source ∈ g.ids)
    (htarget : target ∈ g.ids) : ∃ g', g.addEdge source target = .ok g' ∧ g'.ids = g.ids := by
  obtain ⟨a, ha⟩ := Option.isSome_iff_exists.1 (position?_isSome_iff.2 hsource)
  obtain ⟨b, hb⟩ := Option.isSome_iff_exists.1 (position?_isSome_iff.2 htarget)
  exact ⟨_, addEdge_eq_ok_iff.2 ⟨a, b, ha, hb, rfl⟩, ids_link g a b⟩

theorem lt_size_of_position? {id : String} {i : Nat} (h : g.position? id = some i) :
    i < g.size := by
  obtain ⟨hlt, -⟩ := List.getElem?_eq_some_iff.1 (ids_getElem?_of_position? h)
  rwa [length_ids] at hlt

/-- Only positions of the graph have dependencies. -/
theorem lt_of_mem_dependenciesAt {i j : Nat} (hj : j ∈ g.dependenciesAt i) : i < g.size := by
  rw [dependenciesAt] at hj
  cases hv : g.vertices[i]? with
  | none => rw [hv] at hj; cases hj
  | some v => exact (List.getElem?_eq_some_iff.1 hv).1

/-! ## Coherence -/

namespace Coherent

theorem empty : Coherent Graph.empty := by
  refine ⟨List.nodup_nil, ?_, ?_, ?_, ?_⟩ <;>
    simp [dependenciesAt, dependentsAt, Graph.empty]

theorem addNode {node : Node} (h : g.Coherent) (hadd : g.addNode node = .ok g') :
    g'.Coherent := by
  have hnodes := nodes_addNode hadd
  have hsize : g'.size = g.size + 1 := by
    rw [← length_ids, ← length_ids, ids_eq, ids_eq, hnodes]
    simp
  refine ⟨?_, ?_, ?_, ?_, ?_⟩
  · rw [ids_eq, hnodes, List.map_append, ← ids_eq]
    refine List.nodup_append.2 ⟨h.nodup, by simp, ?_⟩
    intro id hid other hother heq
    rw [List.map_singleton, List.mem_singleton] at hother
    exact (addNode_eq_ok_iff.1 hadd).1 (hother ▸ heq ▸ hid)
  · intro i j hj
    rw [dependenciesAt_addNode hadd] at hj
    have := h.lt hj
    omega
  · intro i j
    rw [dependenciesAt_addNode hadd, dependentsAt_addNode hadd]
    exact h.converse
  · intro i
    rw [dependenciesAt_addNode hadd]
    exact h.dependencies_increasing i
  · intro i
    rw [dependentsAt_addNode hadd]
    exact h.dependents_increasing i

theorem link (h : g.Coherent) {a b : Nat} (ha : a < g.size) (hb : b < g.size) :
    (g.link a b).Coherent := by
  refine ⟨?_, ?_, ?_, ?_, ?_⟩
  · rw [ids_link]
    exact h.nodup
  · intro i j hj
    rw [size_link]
    rw [dependenciesAt_link g b ha] at hj
    split at hj
    · rcases Positions.mem_insert.1 hj with rfl | hj
      · exact hb
      · exact h.lt hj
    · exact h.lt hj
  · intro i j
    rw [dependenciesAt_link g b ha, dependentsAt_link g a hb]
    have := h.converse (i := i) (j := j)
    grind [Positions.mem_insert]
  · intro i
    rw [dependenciesAt_link g b ha]
    split
    · exact Positions.pairwise_insert b (h.dependencies_increasing i)
    · exact h.dependencies_increasing i
  · intro i
    rw [dependentsAt_link g a hb]
    split
    · exact Positions.pairwise_insert a (h.dependents_increasing i)
    · exact h.dependents_increasing i

theorem addEdge {source target : String} (h : g.Coherent)
    (hadd : g.addEdge source target = .ok g') : g'.Coherent := by
  obtain ⟨a, b, ha, hb, rfl⟩ := addEdge_eq_ok_iff.1 hadd
  exact h.link (lt_size_of_position? ha) (lt_size_of_position? hb)

/-! ## Edges between ids -/

theorem mem_dependencies (h : g.Coherent) {id dependency : String} :
    dependency ∈ g.dependencies id ↔
      ∃ i j, g.ids[i]? = some id ∧ g.ids[j]? = some dependency ∧ j ∈ g.dependenciesAt i := by
  rw [dependencies]
  cases hi : g.position? id with
  | none =>
    have hnot : ∀ i, g.ids[i]? ≠ some id := fun i hid => by
      rw [(position?_eq_some_iff h.nodup).2 hid] at hi
      cases hi
    simp [hnot]
  | some i =>
    have hid := ids_getElem?_of_position? hi
    simp only [mem_idsAt]
    constructor
    · rintro ⟨j, hj, hdep⟩
      exact ⟨i, j, hid, hdep, hj⟩
    · rintro ⟨k, j, hk, hdep, hj⟩
      rw [(position?_eq_some_iff h.nodup).2 hk] at hi
      cases hi
      exact ⟨j, hj, hdep⟩

theorem nodup_dependencies (h : g.Coherent) (id : String) : (g.dependencies id).Nodup := by
  rw [dependencies]
  split
  · next i _ =>
    refine List.Nodup.filterMap ?_ (Positions.nodup_of_pairwise (h.dependencies_increasing i))
    intro j k id hj hk
    rw [Option.mem_def, ← ids_getElem?] at hj hk
    exact ids_inj h.nodup hj hk
  · exact .nil

theorem mem_dependents (h : g.Coherent) {id dependent : String} :
    dependent ∈ g.dependents id ↔ id ∈ g.dependencies dependent := by
  rw [h.mem_dependencies, dependents]
  cases hi : g.position? id with
  | none =>
    have hnot : ∀ i, g.ids[i]? ≠ some id := fun i hid => by
      rw [(position?_eq_some_iff h.nodup).2 hid] at hi
      cases hi
    simp [hnot]
  | some i =>
    have hid := ids_getElem?_of_position? hi
    simp only [mem_idsAt]
    constructor
    · rintro ⟨j, hj, hdep⟩
      exact ⟨j, i, hdep, hid, h.converse.2 hj⟩
    · rintro ⟨j, k, hj, hk, hmem⟩
      rw [(position?_eq_some_iff h.nodup).2 hk] at hi
      cases hi
      exact ⟨j, h.converse.1 hmem, hj⟩

end Coherent

/-! ## Graphs made by additions -/

/-- A request to add a node, or to add an edge from a node to one that it depends on. -/
inductive Addition where
  | node (added : Node)
  | edge (dependent dependency : String)

/-- The graph with what a request adds. -/
def Addition.apply (g : Graph) : Addition → Except GraphError Graph
  | .node added => g.addNode added
  | .edge dependent dependency => g.addEdge dependent dependency

/-- The graph after a request, which is left as it was by one that fails. -/
def add (g : Graph) (addition : Addition) : Graph := (addition.apply g).toOption.getD g

/-- The graph that a sequence of requests makes. -/
def make (additions : List Addition) : Graph := additions.foldl add empty

namespace Coherent

theorem add (h : g.Coherent) (addition : Addition) : (g.add addition).Coherent := by
  rw [Graph.add]
  cases hadded : addition.apply g with
  | error cause => exact h
  | ok g' =>
    change g'.Coherent
    cases addition with
    | node added => exact h.addNode hadded
    | edge dependent dependency => exact h.addEdge hadded

theorem make (additions : List Addition) : (make additions).Coherent := by
  rw [Graph.make]
  exact List.foldlRecOn additions Graph.add Coherent.empty fun _ h addition _ => h.add addition

end Coherent

/-- Adding an edge adds it to the edges between ids, and nothing else. -/
theorem mem_dependencies_addEdge (h : g.Coherent) {source target : String}
    (hadd : g.addEdge source target = .ok g') {id dependency : String} :
    dependency ∈ g'.dependencies id ↔
      (id = source ∧ dependency = target) ∨ dependency ∈ g.dependencies id := by
  have h' := h.addEdge hadd
  obtain ⟨a, b, ha, hb, rfl⟩ := addEdge_eq_ok_iff.1 hadd
  have hsource := ids_getElem?_of_position? ha
  have htarget := ids_getElem?_of_position? hb
  rw [h'.mem_dependencies, h.mem_dependencies, ids_link]
  constructor
  · rintro ⟨i, j, hi, hj, hmem⟩
    rw [dependenciesAt_link g b (lt_size_of_position? ha)] at hmem
    split at hmem
    · next hia =>
      subst hia
      rcases Positions.mem_insert.1 hmem with rfl | hmem
      · refine .inl ⟨?_, ?_⟩
        · exact Option.some.inj (hi.symm.trans hsource)
        · exact Option.some.inj (hj.symm.trans htarget)
      · exact .inr ⟨i, j, hi, hj, hmem⟩
    · exact .inr ⟨i, j, hi, hj, hmem⟩
  · rintro (⟨rfl, rfl⟩ | ⟨i, j, hi, hj, hmem⟩)
    · refine ⟨a, b, hsource, htarget, ?_⟩
      rw [dependenciesAt_link g b (lt_size_of_position? ha), if_pos rfl]
      exact Positions.mem_insert.2 (.inl rfl)
    · refine ⟨i, j, hi, hj, ?_⟩
      rw [dependenciesAt_link g b (lt_size_of_position? ha)]
      split
      · exact Positions.mem_insert.2 (.inr hmem)
      · exact hmem

end Graph

end Converge
