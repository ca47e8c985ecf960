import Converge.Proofs.Graph.Reachability
import Converge.Proofs.Lookup

/-!
# Graphs in columns

A graph can be kept in four columns: its nodes, an index from ids to positions, and for every
position the set of its dependencies and that of its dependents. A change updates one column after
the other, and whatever it looks up at a position has to be there. What is done with the columns
here is undefined where a look-up fails and where a count of zero would be counted down.

Main statements: `Columns.Shows.perform` says that a change to the columns is the change to the
graph that they show, `Columns.Shows.sound` that the columns then fit together,
`Columns.Shows.answers` that every query on them has the answer of the graph, and
`Columns.fill_exact` that all of this holds after any additions.
-/

namespace Converge

/-- A graph with what belongs to one node at one position of every column. -/
structure Columns where
  nodes : List Node := []
  /-- The positions by id. -/
  index : Table Nat := .empty
  dependencies : List (List Nat) := []
  dependents : List (List Nat) := []

namespace Columns

/-! ## Changes -/

/-- A change to the columns. It may fail on the way, and keeps what it has changed so far. -/
abbrev Change (α : Type) := ExceptT GraphError (StateT Columns Option) α

/-- Adds a node without edges, whose id has to be new. -/
def addNode (node : Node) : Change Unit := do
  if (← get).index.contains node.id then throw (.duplicateId node.id)
  modify fun c => { c with index := c.index.insert node.id c.nodes.length }
  modify fun c => { c with nodes := c.nodes ++ [node] }
  modify fun c => { c with dependencies := c.dependencies ++ [[]] }
  modify fun c => { c with dependents := c.dependents ++ [[]] }

/-- The position of an id that has to be a node's. -/
def require (id : String) : Change Nat := do
  match (← get).index.get? id with
  | some i => return i
  | none => throw (.unknownNode id)

/-- Adds a position to the set at another. -/
def insertAt? (column : List (List Nat)) (i added : Nat) : Option (List (List Nat)) :=
  column[i]?.map fun set => column.set i (Positions.insert added set)

/-- Records that `dependent` depends on `dependency`, first at the one, then at the other. -/
def addEdge (dependent dependency : String) : Change Unit := do
  let source ← require dependent
  let target ← require dependency
  let forward ← liftM (insertAt? (← get).dependencies source target)
  modify fun c => { c with dependencies := forward }
  let backward ← liftM (insertAt? (← get).dependents target source)
  modify fun c => { c with dependents := backward }

/-- Does what a request asks for. -/
def perform (c : Columns) : Graph.Addition → Option (Except GraphError Unit × Columns)
  | .node added => (addNode added).run.run c
  | .edge dependent dependency => (addEdge dependent dependency).run.run c

/-- The columns after a sequence of requests, of which some may fail. -/
def fill? (additions : List Graph.Addition) : Option Columns :=
  additions.foldlM (fun c addition => (c.perform addition).map (·.2)) {}

/-! ## What the columns show -/

/-- Whether the columns are those of a graph. -/
structure Shows (c : Columns) (g : Graph) : Prop where
  nodes : c.nodes = g.nodes
  index : ∀ id, c.index.get? id = g.position? id
  dependencies : c.dependencies = g.vertices.map (·.dependencies)
  dependents : c.dependents = g.vertices.map (·.dependents)

variable {c : Columns} {g : Graph}

theorem position?_eq_findIdx? (g : Graph) (id : String) :
    g.position? id = g.ids.findIdx? (· == id) := by
  rw [Graph.position?, Graph.ids, List.findIdx?_map]
  rfl

/-- Each step of a change to the columns reads what the steps before it have written. -/
theorem perform_node (c : Columns) (node : Node) : c.perform (.node node) =
    some (if c.index.contains node.id then (.error (.duplicateId node.id), c) else
      (.ok (), { nodes := c.nodes ++ [node], index := c.index.insert node.id c.nodes.length,
                 dependencies := c.dependencies ++ [[]]
                 dependents := c.dependents ++ [[]] })) := by
  have hstart : c.perform (.node node) =
      (if c.index.contains node.id then throw (.duplicateId node.id) else do
        modify fun c => { c with index := c.index.insert node.id c.nodes.length }
        modify fun c => { c with nodes := c.nodes ++ [node] }
        modify fun c => { c with dependencies := c.dependencies ++ [[]] }
        modify fun c => { c with dependents := c.dependents ++ [[]] }
        : Change Unit).run.run c := rfl
  rw [hstart]
  split <;> rfl

theorem run_require (c : Columns) (id : String) {α : Type} (next : Nat → Change α) :
    (require id >>= next).run.run c =
      match c.index.get? id with
      | some i => (next i).run.run c
      | none => some (.error (.unknownNode id), c) := by
  have hstart : (require id >>= next).run.run c =
      ((match c.index.get? id with
        | some i => pure i
        | none => throw (.unknownNode id) : Change Nat) >>= next).run.run c := rfl
  rw [hstart]
  cases c.index.get? id <;> rfl

theorem run_lookUp {α β : Type} (look? : Columns → Option α) (next : α → Change β) (c : Columns) :
    (do next (← liftM (look? (← get))) : Change β).run.run c =
      (look? c).bind fun found => (next found).run.run c := by
  have hstart : (do next (← liftM (look? (← get))) : Change β).run.run c =
      ((liftM (look? c) : Change α) >>= next).run.run c := rfl
  rw [hstart]
  cases look? c <;> rfl

theorem perform_edge (c : Columns) (dependent dependency : String) :
    c.perform (.edge dependent dependency) =
      match c.index.get? dependent, c.index.get? dependency with
      | none, _ => some (.error (.unknownNode dependent), c)
      | some _, none => some (.error (.unknownNode dependency), c)
      | some source, some target => do
        let forward ← insertAt? c.dependencies source target
        let backward ← insertAt? c.dependents target source
        return (.ok (), { c with dependencies := forward, dependents := backward }) := by
  rw [perform, addEdge, run_require]
  cases c.index.get? dependent with
  | none => rfl
  | some source =>
    simp only [run_require]
    cases c.index.get? dependency with
    | none => rfl
    | some target =>
      refine (run_lookUp (fun c => insertAt? c.dependencies source target) _ c).trans ?_
      refine Option.bind_congr fun forward _ => ?_
      exact run_lookUp (fun c => insertAt? c.dependents target source) _
        { c with dependencies := forward }

namespace Shows

theorem empty : Shows {} Graph.empty := ⟨rfl, fun _ => rfl, rfl, rfl⟩

/-- The columns with one node more show the graph with that node. -/
theorem withNode (h : c.Shows g) (node : Node) (hnew : g.contains node.id = false) :
    Shows { nodes := c.nodes ++ [node], index := c.index.insert node.id c.nodes.length,
            dependencies := c.dependencies ++ [[]], dependents := c.dependents ++ [[]] }
      ⟨g.vertices ++ [{ node := node }]⟩ where
  nodes := by simp [h.nodes, Graph.nodes]
  dependencies := by simp [h.dependencies]
  dependents := by simp [h.dependents]
  index id := by
    have hnone : g.position? node.id = none :=
      Option.isNone_iff_eq_none.1 (Option.isSome_eq_false_iff.1 hnew)
    have hsize : c.nodes.length = g.size := by
      rw [h.nodes, Graph.nodes, List.length_map, Graph.size]
    rw [Table.get?_insert, h.index, hsize, Graph.position?, Graph.position?, List.findIdx?_append]
    by_cases hid : id = node.id
    · subst hid
      rw [Graph.position?] at hnone
      rw [if_pos rfl, hnone]
      simp [Graph.size]
    · rw [if_neg hid]
      simp [Ne.symm hid]

/-- A set changes at one position where it changes in one vertex. -/
theorem insertAt?_map (set : Vertex → List Nat) (change : Vertex → Vertex) {i added : Nat}
    {vertices : List Vertex} (hi : i < vertices.length)
    (hchange : ∀ v, set (change v) = Positions.insert added (set v)) :
    insertAt? (vertices.map set) i added = some ((vertices.modify i change).map set) := by
  rw [insertAt?, List.getElem?_map, List.getElem?_eq_getElem hi, Option.map_some, Option.map_some]
  refine congrArg some (List.ext_getElem? fun k => ?_)
  rw [List.getElem?_set, List.getElem?_map, List.getElem?_map, List.getElem?_modify]
  by_cases hk : i = k
  · subst hk
    simp [hi, hchange]
  · simp [hk]

theorem map_modify_eq (set : Vertex → List Nat) (change : Vertex → Vertex) (i : Nat)
    (vertices : List Vertex) (hchange : ∀ v, set (change v) = set v) :
    (vertices.modify i change).map set = vertices.map set := by
  refine List.ext_getElem? fun k => ?_
  rw [List.getElem?_map, List.getElem?_map, List.getElem?_modify]
  cases vertices[k]? with
  | none => rfl
  | some v => by_cases hk : i = k <;> simp [hk, hchange]

/-- The columns with one edge more show the graph with that edge. -/
theorem withEdge (h : c.Shows g) {source target : Nat} (hsource : source < g.size)
    (htarget : target < g.size) :
    ∃ forward backward, insertAt? c.dependencies source target = some forward ∧
      insertAt? c.dependents target source = some backward ∧
      Shows { c with dependencies := forward, dependents := backward } (g.link source target) := by
  let forward (v : Vertex) : Vertex :=
    { v with dependencies := Positions.insert target v.dependencies }
  let backward (v : Vertex) : Vertex :=
    { v with dependents := Positions.insert source v.dependents }
  refine ⟨(g.link source target).vertices.map (·.dependencies),
    (g.link source target).vertices.map (·.dependents), ?_, ?_, ?_, fun id => ?_, rfl, rfl⟩
  · rw [h.dependencies, insertAt?_map _ forward hsource fun _ => rfl]
    exact congrArg some (map_modify_eq _ backward target _ fun _ => rfl).symm
  · have hlength : target < (g.vertices.modify source forward).length := by rwa [List.length_modify]
    rw [h.dependents, ← map_modify_eq _ forward source g.vertices fun _ => rfl,
      insertAt?_map _ backward hlength fun _ => rfl]
    rfl
  · exact h.nodes.trans (Graph.nodes_link ..).symm
  · rw [position?_eq_findIdx?, Graph.ids_link, ← position?_eq_findIdx?]
    exact h.index id

theorem addNode (h : c.Shows g) (node : Node) :
    ∃ c', c.perform (.node node) = some ((g.addNode node).map fun _ => (), c') ∧
      c'.Shows (g.add (.node node)) ∧ ∀ cause, g.addNode node = .error cause → c' = c := by
  have hcontains : c.index.contains node.id = g.contains node.id := by
    rw [Table.contains, h.index, Graph.contains]
  rw [perform_node, hcontains, Graph.add, Graph.Addition.apply, Graph.addNode]
  cases hknown : g.contains node.id with
  | true => exact ⟨c, rfl, h, fun _ _ => rfl⟩
  | false => exact ⟨_, rfl, h.withNode node hknown, by rintro _ ⟨⟩⟩

theorem addEdge (h : c.Shows g) (dependent dependency : String) :
    ∃ c', c.perform (.edge dependent dependency) =
        some ((g.addEdge dependent dependency).map fun _ => (), c') ∧
      c'.Shows (g.add (.edge dependent dependency)) ∧
      ∀ cause, g.addEdge dependent dependency = .error cause → c' = c := by
  rw [perform_edge, h.index, h.index, Graph.add, Graph.Addition.apply, Graph.addEdge, Graph.require,
    Graph.require]
  cases hsource : g.position? dependent with
  | none => exact ⟨c, rfl, h, fun _ _ => rfl⟩
  | some source =>
    cases htarget : g.position? dependency with
    | none => exact ⟨c, rfl, h, fun _ _ => rfl⟩
    | some target =>
      obtain ⟨forward, backward, hforward, hbackward, hshows⟩ :=
        h.withEdge (Graph.lt_size_of_position? hsource) (Graph.lt_size_of_position? htarget)
      simp only [hforward, hbackward]
      exact ⟨_, rfl, hshows, by rintro _ ⟨⟩⟩

/-- A request to the columns succeeds or fails like the request to the graph, and what fails changes
nothing. -/
theorem perform (h : c.Shows g) (addition : Graph.Addition) :
    ∃ c', c.perform addition = some ((addition.apply g).map fun _ => (), c') ∧
      c'.Shows (g.add addition) ∧ ∀ cause, addition.apply g = .error cause → c' = c := by
  cases addition with
  | node added => exact h.addNode added
  | edge dependent dependency => exact h.addEdge dependent dependency

theorem foldlM_perform (h : c.Shows g) (additions : List Graph.Addition) :
    ∃ c', additions.foldlM (fun c addition => (c.perform addition).map (·.2)) c = some c' ∧
      c'.Shows (additions.foldl Graph.add g) := by
  induction additions generalizing c g with
  | nil => exact ⟨c, rfl, h⟩
  | cons addition additions ih =>
    obtain ⟨c', hc', hshows, -⟩ := h.perform addition
    rw [List.foldlM_cons, hc']
    exact ih hshows

theorem length_nodes (h : c.Shows g) : c.nodes.length = g.size := by
  rw [h.nodes, Graph.nodes, List.length_map, Graph.size]

theorem getElem?_nodes (h : c.Shows g) (i : Nat) :
    c.nodes[i]?.map (·.id) = g.vertices[i]?.map (·.node.id) := by
  rw [h.nodes, Graph.nodes_getElem?, Option.map_map]
  rfl

theorem getElem?_dependencies (h : c.Shows g) {i : Nat} (hi : i < g.size) :
    c.dependencies[i]? = some (g.dependenciesAt i) := by
  rw [h.dependencies, List.getElem?_map, Graph.dependenciesAt, List.getElem?_eq_getElem hi]
  rfl

theorem getElem?_dependents (h : c.Shows g) {i : Nat} (hi : i < g.size) :
    c.dependents[i]? = some (g.dependentsAt i) := by
  rw [h.dependents, List.getElem?_map, Graph.dependentsAt, List.getElem?_eq_getElem hi]
  rfl

theorem getD_dependencies (h : c.Shows g) (i : Nat) :
    c.dependencies.getD i [] = g.dependenciesAt i := by
  rw [List.getD_eq_getElem?_getD, h.dependencies, List.getElem?_map, Graph.dependenciesAt]

theorem getD_dependents (h : c.Shows g) (i : Nat) :
    c.dependents.getD i [] = g.dependentsAt i := by
  rw [List.getD_eq_getElem?_getD, h.dependents, List.getElem?_map, Graph.dependentsAt]

end Shows

/-! ## How the columns fit together -/

/-- The index leads from each id to the position of its node and from nowhere else, ids are
distinct, both columns of neighbours have a set for every node, the sets list positions of nodes in
order, and an edge is known at both of its ends. -/
structure Sound (c : Columns) : Prop where
  nodup : (c.nodes.map (·.id)).Nodup
  index : ∀ id i, c.index.get? id = some i ↔ c.nodes[i]?.map (·.id) = some id
  length_dependencies : c.dependencies.length = c.nodes.length
  length_dependents : c.dependents.length = c.nodes.length
  lt : ∀ set ∈ c.dependencies ++ c.dependents, ∀ i ∈ set, i < c.nodes.length
  increasing : ∀ set ∈ c.dependencies ++ c.dependents, set.Pairwise (· < ·)
  converse : ∀ i j, j ∈ c.dependencies.getD i [] ↔ i ∈ c.dependents.getD j []

theorem Shows.sound (h : c.Shows g) (hg : g.Coherent) : c.Sound := by
  have hset : ∀ set ∈ c.dependencies ++ c.dependents,
      ∃ i, set = g.dependenciesAt i ∨ set = g.dependentsAt i := by
    intro set hset
    rcases List.mem_append.1 hset with hset | hset
    · obtain ⟨i, hi⟩ := List.mem_iff_getElem?.1 hset
      exact ⟨i, .inl (by rw [← h.getD_dependencies, List.getD_eq_getElem?_getD, hi]; rfl)⟩
    · obtain ⟨i, hi⟩ := List.mem_iff_getElem?.1 hset
      exact ⟨i, .inr (by rw [← h.getD_dependents, List.getD_eq_getElem?_getD, hi]; rfl)⟩
  refine ⟨?_, fun id i => ?_, ?_, ?_, fun set hmem i hi => ?_, fun set hmem => ?_, fun i j => ?_⟩
  · rw [h.nodes, ← Graph.ids_eq]
    exact hg.nodup
  · rw [h.index, Graph.position?_eq_some_iff hg.nodup, Graph.ids_getElem?, h.getElem?_nodes]
  · rw [h.dependencies, List.length_map, h.length_nodes, Graph.size]
  · rw [h.dependents, List.length_map, h.length_nodes, Graph.size]
  · rw [h.length_nodes]
    obtain ⟨j, rfl | rfl⟩ := hset set hmem
    · exact hg.lt hi
    · exact hg.lt_of_mem_dependentsAt hi
  · obtain ⟨j, rfl | rfl⟩ := hset set hmem
    · exact hg.dependencies_increasing j
    · exact hg.dependents_increasing j
  · rw [h.getD_dependencies, h.getD_dependents]
    exact hg.converse

/-! ## Queries -/

/-- The ids at a list of positions. -/
def idsAt? (c : Columns) (positions : List Nat) : Option (List String) :=
  positions.mapM fun i => c.nodes[i]?.map (·.id)

/-- The node of a given id, if there is one. -/
def node? (c : Columns) (id : String) : Option (Option Node) :=
  match c.index.get? id with
  | some i => c.nodes[i]?.map some
  | none => some none

/-- The ids of the neighbours that a column lists for an id. -/
def neighbours? (c : Columns) (column : List (List Nat)) (id : String) : Option (List String) :=
  match c.index.get? id with
  | some i => column[i]? >>= c.idsAt?
  | none => some []

/-- The id at a position, and the positions that depend on it. -/
def look? (c : Columns) (i : Nat) : Option (String × List Nat) := do
  let node ← c.nodes[i]?
  let dependents ← c.dependents[i]?
  return (node.id, dependents)

/-! ## Sorting -/

/-- The sort before anything is placed. -/
def start? (c : Columns) : Option Sorting := do
  let pending := c.dependencies.map List.length
  let ready ← (List.range c.nodes.length).filterM fun i => return (← pending[i]?) == 0
  return { pending, ready, placed := [] }

/-- One dependency of the node at `i` has been placed. -/
def release? (s : Sorting) (i : Nat) : Option Sorting := do
  let pending ← countDown? s.pending i
  let left ← pending[i]?
  return { s with pending, ready := if left = 0 then Positions.insert i s.ready else s.ready }

/-- Places the first ready node, if there is one. -/
def step? (c : Columns) (s : Sorting) : Option Sorting :=
  match s.ready with
  | [] => some s
  | i :: ready => do
    let dependents ← c.dependents[i]?
    dependents.foldlM release? { s with ready, placed := s.placed ++ [i] }

/-- Places nodes until none is ready, which has to come after `count` of them at most. -/
def run? (c : Columns) : (count : Nat) → Sorting → Option Sorting
  | 0, s => if s.ready.isEmpty then some s else none
  | count + 1, s => c.step? s >>= c.run? count

/-- The walk that closes a cycle, which has to close before the steps are used up. -/
def closeWalk? (c : Columns) (pending : List Nat) :
    (fuel : Nat) → (walk : List Nat) → Nat → Option (List Nat)
  | 0, _, _ => none
  | fuel + 1, walk, i =>
    if walk.contains i then some (walk.dropWhile (· != i) ++ [i])
    else do
      let dependencies ← c.dependencies[i]?
      match ← dependencies.findM? fun j => return 0 < (← pending[j]?) with
      | some j => c.closeWalk? pending fuel (walk ++ [i]) j
      | none => return walk ++ [i]

/-- A cycle among the nodes that still wait for others. -/
def cycle? (c : Columns) (pending : List Nat) : Option (List Nat) := do
  match ← (List.range c.nodes.length).findM? fun i => return 0 < (← pending[i]?) with
  | some i => c.closeWalk? pending (c.nodes.length + 1) [] i
  | none => return []

/-- What `pick?` finds at the positions in dependency order, or the ids of a cycle. -/
def sorted? {α : Type} (c : Columns) (pick? : Nat → Option α) :
    Option (Except GraphError (List α)) := do
  let s ← c.start? >>= c.run? c.nodes.length
  if s.placed.length < c.nodes.length then
    return .error (.cycle (← c.cycle? s.pending >>= c.idsAt?))
  else return .ok (← s.placed.mapM pick?)

theorem release?_eq {s : Sorting} {i : Nat} (h : 0 < s.pending.getD i 0) :
    release? s i = some (s.release i) := by
  have hlt := Sorting.lt_of_waiting h
  rw [release?, countDown?_eq_some h]
  simp [hlt, Sorting.release]

theorem foldlM_release? {ds : List Nat} (hnodup : ds.Nodup) (s : Sorting)
    (h : ∀ i ∈ ds, 0 < s.pending.getD i 0) :
    ds.foldlM release? s = some (ds.foldl Sorting.release s) := by
  induction ds generalizing s with
  | nil => rfl
  | cons d ds ih =>
    obtain ⟨hd, hnodup⟩ := List.nodup_cons.1 hnodup
    rw [List.foldlM_cons, release?_eq (h d (List.mem_cons_self ..))]
    refine ih hnodup (s.release d) fun i hi => ?_
    have hne : d ≠ i := fun heq => hd (heq ▸ hi)
    have hkept : (s.release d).pending.getD i 0 = s.pending.getD i 0 := by
      simp [Sorting.release, List.getD_eq_getElem?_getD, hne]
    exact hkept ▸ h i (List.mem_cons_of_mem _ hi)

/-- The first of some positions that still waits for something is found by looking them up. -/
theorem findM?_waiting {pending positions : List Nat} (hlt : ∀ i ∈ positions, i < pending.length) :
    (positions.findM? fun i => return 0 < (← pending[i]?)) =
      some (positions.find? fun i => 0 < pending.getD i 0) := by
  refine findM?_eq_some fun i hi => ?_
  rw [List.getElem?_eq_getElem (hlt i hi), List.getD_eq_getElem _ _ (hlt i hi)]
  rfl

/-- Where everything is placed nothing is ready. -/
theorem ready_eq_nil {s : Sorting} (h : Sorting.Sound g s) (hlength : g.size ≤ s.placed.length) :
    s.ready = [] := by
  have hperm : s.placed.Perm (List.range g.size) :=
    (h.nodup.subperm fun i hi => List.mem_range.2 (h.lt i hi)).perm_of_length_le
      (List.length_range ▸ hlength)
  refine List.eq_nil_iff_forall_not_mem.2 fun i hi => ?_
  obtain ⟨hlt, hnew, -⟩ := (h.ready i).1 hi
  exact hnew (hperm.mem_iff.2 (List.mem_range.2 hlt))

theorem ready_finish (hg : g.Coherent) : (Sorting.finish g).ready = [] := by
  rcases Sorting.run_length (Sorting.start g) g.size with hready | hlength
  · exact hready
  · exact ready_eq_nil ((Sorting.Sound.start g).run hg g.size)
      (hlength.ge.trans' (Nat.le_add_left ..))

namespace Shows

variable {s : Sorting}

theorem start? (h : c.Shows g) : c.start? = some (Sorting.start g) := by
  have hready : (List.range c.nodes.length).filterM
        (fun i => return (← (c.dependencies.map List.length)[i]?) == 0) =
      some ((List.range c.nodes.length).filter fun i => (g.dependenciesAt i).isEmpty) := by
    refine filterM_eq_some fun i hi => ?_
    have hlt : i < g.size := h.length_nodes ▸ List.mem_range.1 hi
    rw [List.getElem?_map, h.getElem?_dependencies hlt]
    cases g.dependenciesAt i <;> rfl
  rw [Columns.start?]
  simp only [hready]
  rw [h.length_nodes, h.dependencies, List.map_map]
  rfl

/-- A step counts no position down that waits for nothing: what depends on the node that it places
still waits for that one. -/
theorem step? (h : c.Shows g) (hg : g.Coherent) (hs : Sorting.Sound g s) :
    c.step? s = some (s.step g) := by
  rw [Columns.step?, Sorting.step]
  cases hready : s.ready with
  | nil => rfl
  | cons i ready =>
    obtain ⟨hi, hnew, -⟩ := (hs.ready i).1 (hready ▸ List.mem_cons_self ..)
    simp only [h.getElem?_dependents hi]
    have hnodup : (g.dependentsAt i).Nodup :=
      Positions.nodup_of_pairwise (hg.dependents_increasing i)
    refine foldlM_release? hnodup _ fun k hk => ?_
    have hki : i ∈ g.dependenciesAt k := hg.converse.2 hk
    rw [hs.pending k (Graph.lt_of_mem_dependenciesAt hki)]
    exact List.countP_pos_iff.2 ⟨i, hki, decide_eq_true hnew⟩

theorem run? (h : c.Shows g) (hg : g.Coherent) (hs : Sorting.Sound g s) {count : Nat}
    (hdone : (Sorting.run g count s).ready = []) :
    c.run? count s = some (Sorting.run g count s) := by
  induction count generalizing s with
  | zero => exact if_pos (List.isEmpty_iff.2 hdone)
  | succ count ih =>
    rw [Columns.run?, h.step? hg hs]
    exact ih (hs.step hg) hdone

variable {pending passed : List Nat}

theorem idsAt? (h : c.Shows g) {positions : List Nat} (hlt : ∀ i ∈ positions, i < g.size) :
    c.idsAt? positions = some (g.idsAt positions) := by
  rw [Columns.idsAt?, Graph.idsAt]
  simp only [h.getElem?_nodes]
  refine mapM_eq_some_filterMap fun i hi => ?_
  rw [List.getElem?_eq_getElem (hlt i hi)]
  rfl

/-- The walk finds all that it looks up, and closes before the steps are used up. -/
theorem closeWalk? (h : c.Shows g) (hg : g.Coherent) (hstuck : Sorting.Stuck g pending)
    {fuel i : Nat} (hwalk : g.Walks pending passed i) (hfuel : fuel + passed.length = g.size + 1) :
    c.closeWalk? pending fuel passed i = some (g.closeWalk pending fuel passed i) := by
  induction fuel generalizing passed i with
  | zero =>
    have hle := hwalk.length_le hstuck.length
    omega
  | succ fuel ih =>
    rw [Columns.closeWalk?, Graph.closeWalk]
    by_cases hpassed : i ∈ passed
    · rw [if_pos (List.contains_iff_mem.2 hpassed), if_pos (List.contains_iff_mem.2 hpassed)]
    · have hi : i < g.size := hwalk.forall_lt hstuck.length i (by simp)
      obtain ⟨j, hj⟩ := hstuck.exists_next hwalk.waiting
      have hfind : ((g.dependenciesAt i).findM? fun j => return 0 < (← pending[j]?)) =
          some (some j) := by
        rw [findM?_waiting fun k hk => hstuck.length ▸ hg.lt hk, hj]
      have hrest := ih (hwalk.next hpassed hj)
        (by rw [List.length_append, List.length_singleton]; omega)
      rw [if_neg (mt List.contains_iff_mem.1 hpassed), if_neg (mt List.contains_iff_mem.1 hpassed),
        hj]
      simp only [h.getElem?_dependencies hi, Option.bind_eq_bind, Option.bind_some]
      rw [← hrest]
      exact congrArg (Option.bind · _) hfind

theorem cycle? (h : c.Shows g) (hg : g.Coherent) (hstuck : Sorting.Stuck g pending) :
    c.cycle? pending = some (g.cycle pending) ∧ ∀ i ∈ g.cycle pending, i < g.size := by
  obtain ⟨i, hi⟩ := hstuck.exists_first
  have hcycle : g.cycle pending = g.closeWalk pending (g.size + 1) [] i := by rw [Graph.cycle, hi]
  refine ⟨?_, ?_⟩
  · have hfind : ((List.range c.nodes.length).findM? fun i => return 0 < (← pending[i]?)) =
        some (some i) := by
      have hfirst : (List.range c.nodes.length).find? (fun i => 0 < pending.getD i 0) = some i := by
        obtain ⟨hlt, hwaits, hbefore⟩ := List.findIdx?_eq_some_iff_getElem.1 hi
        rw [List.find?_range_eq_some, h.length_nodes, ← hstuck.length, List.getD_eq_getElem _ _ hlt]
        refine ⟨hwaits, List.mem_range.2 hlt, fun j hj => ?_⟩
        rw [List.getD_eq_getElem _ _ (hj.trans hlt)]
        simpa using hbefore j hj
      rw [findM?_waiting fun k hk => hstuck.length ▸ h.length_nodes ▸ List.mem_range.1 hk, hfirst]
    rw [hcycle, ← h.closeWalk? hg hstuck (.start hi) rfl, Columns.cycle?, h.length_nodes]
    rw [h.length_nodes] at hfind
    exact congrArg (Option.bind · _) hfind
  · obtain ⟨walk, j, hwalk, -, hclosed⟩ :=
      Graph.closeWalk_closes hstuck (g.size + 1) (.start hi) rfl
    have hsuffix : walk.dropWhile (· != j) ++ [j] <:+ walk ++ [j] :=
      List.suffix_append_self_iff.2 (List.dropWhile_suffix _)
    rw [hcycle, hclosed]
    exact fun k hk => hwalk.forall_lt hstuck.length k (hsuffix.mem hk)

theorem sorted? (h : c.Shows g) (hg : g.Coherent) {α : Type} {pick? : Nat → Option α}
    (hpick : ∀ i < g.size, (pick? i).isSome) :
    c.sorted? pick? = some (g.sort.map fun positions => positions.filterMap pick?) := by
  have hsound : Sorting.Sound g (Sorting.finish g) := (Sorting.Sound.start g).run hg g.size
  have hready : (Sorting.run g g.size (Sorting.start g)).ready = [] := ready_finish hg
  have hfinish : (c.start? >>= c.run? c.nodes.length) = some (Sorting.finish g) := by
    rw [h.start?, h.length_nodes]
    exact h.run? hg (Sorting.Sound.start g) hready
  rw [Columns.sorted?, hfinish]
  simp only [Option.bind_eq_bind, Option.bind_some, h.length_nodes]
  by_cases hleft : (Sorting.finish g).placed.length < g.size
  · obtain ⟨hcycle, hlt⟩ := h.cycle? hg (hsound.stuck hg hready hleft)
    rw [if_pos hleft, Graph.sort_eq_error_iff.2 ⟨hleft, rfl⟩, hcycle]
    simp only [Option.bind_some, h.idsAt? hlt]
    rfl
  · rw [if_neg hleft, Graph.sort_eq_ok_iff.2 ⟨Nat.le_of_not_lt hleft, rfl⟩,
      mapM_eq_some_filterMap fun i hi => hpick i (hsound.lt i hi)]
    rfl

end Shows

/-- Whether every query on the columns has an outcome, and it is the answer of a graph. -/
structure Answers (c : Columns) (g : Graph) : Prop where
  node : ∀ id, c.node? id = some (g.node? id)
  dependencies : ∀ id, c.neighbours? c.dependencies id = some (g.dependencies id)
  dependents : ∀ id, c.neighbours? c.dependents id = some (g.dependents id)
  downstream : ∀ id i, c.index.get? id = some i → ∃ start, c.dependents[i]? = some start ∧
    Graph.WorksOff c.look? start ∅ (g.downstream id).toFinset
  order : (c.sorted? fun i => c.nodes[i]?.map (·.id)) = some g.order
  sortedNodes : (c.sorted? fun i => c.nodes[i]?) = some g.sortedNodes

namespace Shows

theorem look? (h : c.Shows g) : c.look? = g.look? := by
  funext i
  rw [Columns.look?, Graph.look?, h.nodes, Graph.nodes_getElem?, h.dependents, List.getElem?_map]
  cases g.vertices[i]? <;> rfl

theorem neighbours? (h : c.Shows g) {column : List (List Nat)} {neighbours : Nat → List Nat}
    (hcolumn : ∀ i < g.size, column[i]? = some (neighbours i))
    (hlt : ∀ i, ∀ j ∈ neighbours i, j < g.size) (id : String) :
    c.neighbours? column id =
      some (match g.position? id with
        | some i => g.idsAt (neighbours i)
        | none => []) := by
  rw [Columns.neighbours?, h.index]
  cases hi : g.position? id with
  | none => rfl
  | some i =>
    simp only [hcolumn i (Graph.lt_size_of_position? hi)]
    exact h.idsAt? (hlt i)

theorem node? (h : c.Shows g) (hg : g.Coherent) (id : String) : c.node? id = some (g.node? id) := by
  rw [Columns.node?, h.index]
  cases hi : g.position? id with
  | none =>
    have hnone : g.node? id = none := by
      refine Option.eq_none_iff_forall_ne_some.2 fun node hnode => ?_
      have hmem : node ∈ g.nodes ∧ node.id = id := (Graph.node?_eq_some_iff hg.nodup).1 hnode
      exact Graph.position?_eq_none_iff.1 hi (Graph.mem_ids.2 ⟨node, hmem⟩)
    rw [hnone]
  | some i =>
    have hid := Graph.ids_getElem?_of_position? hi
    rw [Graph.ids_eq, List.getElem?_map, Option.map_eq_some_iff] at hid
    obtain ⟨node, hnode, hid⟩ := hid
    have hlook : c.nodes[i]? = some node := h.nodes ▸ hnode
    rw [(Graph.node?_eq_some_iff hg.nodup).2 ⟨List.mem_of_getElem? hnode, hid⟩]
    exact congrArg (Option.map some) hlook

theorem answers (h : c.Shows g) (hg : g.Coherent) : c.Answers g where
  node := h.node? hg
  dependencies id := by
    rw [h.neighbours? (fun i hi => h.getElem?_dependencies hi) (fun i j hj => hg.lt hj)]
    rfl
  dependents id := by
    rw [h.neighbours? (fun i hi => h.getElem?_dependents hi)
      (fun i j hj => hg.lt_of_mem_dependentsAt hj)]
    rfl
  downstream id i hi := by
    rw [h.index] at hi
    refine ⟨_, h.getElem?_dependents (Graph.lt_size_of_position? hi), ?_⟩
    rw [h.look?, Graph.toFinset_downstream hi]
    exact Graph.worksOff_downstreamAt hg i
  order := by
    simp only [h.getElem?_nodes]
    rw [h.sorted? hg fun i hi => by rw [List.getElem?_eq_getElem hi]; rfl, Graph.order]
    cases g.sort <;> rfl
  sortedNodes := by
    simp only [h.nodes, Graph.nodes_getElem?]
    rw [h.sorted? hg fun i hi => by rw [List.getElem?_eq_getElem hi]; rfl, Graph.sortedNodes]
    cases g.sort <;> rfl

end Shows

/-- After any nodes and edges that are added, whether or not some of these requests fail, the
columns fit together and show the graph that the requests make: no look-up at a position fails, no
count goes below zero, neither in the requests nor in any query, and every query has the answer of
the graph. One request more does the same to the columns as to the graph, and if it fails it
changes nothing. -/
theorem fill_exact (additions : List Graph.Addition) :
    let g := Graph.make additions
    ∃ c, fill? additions = some c ∧ c.Shows g ∧ c.Sound ∧ c.Answers g ∧
      ∀ addition, ∃ c', c.perform addition = some ((addition.apply g).map fun _ => (), c') ∧
        fill? (additions ++ [addition]) = some c' ∧
        ∀ cause, addition.apply g = .error cause → c' = c := by
  intro g
  have hg : g.Coherent := Graph.Coherent.make additions
  obtain ⟨c, hc, hshows⟩ := Shows.empty.foldlM_perform additions
  refine ⟨c, hc, hshows, hshows.sound hg, hshows.answers hg, fun addition => ?_⟩
  obtain ⟨c', hc', -, hfails⟩ := hshows.perform addition
  refine ⟨c', hc', ?_, hfails⟩
  rw [fill?, List.foldlM_append, hc, Option.bind_eq_bind, Option.bind_some, List.foldlM_cons, hc']
  rfl

/-- A node that is there already, an edge to one that is not, and an edge that comes twice leave the
columns as they are. -/
example :
    let net : Graph.Addition := .node { id := "net", kind := .network }
    let app : Graph.Addition := .node { id := "app", kind := .service }
    let made := fill? [net, app, .edge "app" "net", net, .edge "app" "disk", .edge "app" "net"]
    made.map (·.index.entries) = some [("app", 1), ("net", 0)] ∧
      made.map (fun c => (c.dependencies, c.dependents)) = some ([[], [0]], [[1], []]) ∧
      (made.bind fun c => c.sorted? fun i => c.nodes[i]?.map (·.id)) =
        some (.ok ["net", "app"]) := by
  decide +kernel

end Columns

end Converge
