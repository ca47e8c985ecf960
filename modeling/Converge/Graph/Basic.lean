import Converge.Positions
import Converge.Resource.Node

/-!
# Dependency graphs

Nodes in the order of their declaration, and edges from a dependent node to the node it depends
on. Positions in that order stand for the nodes, and every vertex knows its neighbours in both
directions.
-/

namespace Converge

/-- A node with the positions of its neighbours, both lists increasing. -/
structure Vertex where
  node : Node
  /-- Positions of the nodes that this one depends on. -/
  dependencies : List Nat := []
  /-- Positions of the nodes that depend on this one. -/
  dependents : List Nat := []

/-- A dependency graph. -/
structure Graph where
  vertices : List Vertex := []

namespace Graph

/-- The graph without nodes. -/
def empty : Graph := {}

/-- The nodes in declaration order. -/
def nodes (g : Graph) : List Node := g.vertices.map (·.node)

/-- The ids in declaration order. -/
def ids (g : Graph) : List String := g.vertices.map (·.node.id)

/-- Number of nodes. -/
def size (g : Graph) : Nat := g.vertices.length

def isEmpty (g : Graph) : Bool := g.vertices.isEmpty

/-- The place of a node in declaration order. -/
def position? (g : Graph) (id : String) : Option Nat :=
  g.vertices.findIdx? (fun v => v.node.id == id)

def contains (g : Graph) (id : String) : Bool := (g.position? id).isSome

/-- The node of a given id. -/
def node? (g : Graph) (id : String) : Option Node :=
  (g.vertices.find? (fun v => v.node.id == id)).map (·.node)

/-- The positions that the node at `i` depends on. -/
def dependenciesAt (g : Graph) (i : Nat) : List Nat :=
  (g.vertices[i]?.map (·.dependencies)).getD []

/-- The positions that depend on the node at `i`. -/
def dependentsAt (g : Graph) (i : Nat) : List Nat :=
  (g.vertices[i]?.map (·.dependents)).getD []

/-- The ids at a list of positions. -/
def idsAt (g : Graph) (positions : List Nat) : List String :=
  positions.filterMap fun i => g.vertices[i]?.map (·.node.id)

/-! ## Construction -/

/-- Adds a node without edges, whose id has to be new. -/
def addNode (g : Graph) (node : Node) : Except GraphError Graph :=
  if g.contains node.id then .error (.duplicateId node.id)
  else .ok ⟨g.vertices ++ [{ node := node }]⟩

/-- The position of an id that has to be a node's. -/
def require (g : Graph) (id : String) : Except GraphError Nat :=
  match g.position? id with
  | some i => .ok i
  | none => .error (.unknownNode id)

/-- The graph with an edge between two positions. -/
def link (g : Graph) (dependent dependency : Nat) : Graph :=
  let forward := g.vertices.modify dependent fun v =>
    { v with dependencies := Positions.insert dependency v.dependencies }
  ⟨forward.modify dependency fun v =>
    { v with dependents := Positions.insert dependent v.dependents }⟩

/-- Records that `dependent` depends on `dependency`. An edge that is there stays the only one. -/
def addEdge (g : Graph) (dependent dependency : String) : Except GraphError Graph := do
  let source ← g.require dependent
  let target ← g.require dependency
  return g.link source target

/-! ## Queries -/

/-- Number of edges. -/
def edgeCount (g : Graph) : Nat := g.vertices.foldl (fun n v => n + v.dependencies.length) 0

/-- The ids that `id` depends on, in declaration order. -/
def dependencies (g : Graph) (id : String) : List String :=
  match g.position? id with
  | some i => g.idsAt (g.dependenciesAt i)
  | none => []

/-- The ids that depend on `id`, in declaration order. -/
def dependents (g : Graph) (id : String) : List String :=
  match g.position? id with
  | some i => g.idsAt (g.dependentsAt i)
  | none => []

/-- Works off a queue of positions: each that is new joins `found` and queues its dependents. -/
def reach (g : Graph) : (fuel : Nat) → (queue found : List Nat) → List Nat
  | 0, _, found => found
  | _ + 1, [], found => found
  | fuel + 1, i :: queue, found =>
    if found.contains i then g.reach fuel queue found
    else g.reach fuel (queue ++ g.dependentsAt i) (Positions.insert i found)

/-- The positions that depend on the node at `i`, directly or not. Every position queues its
dependents once, so the queue is worked off after as many steps as there are edges at most, and
those of the start. -/
def downstreamAt (g : Graph) (i : Nat) : List Nat :=
  let start := g.dependentsAt i
  g.reach (g.vertices.foldl (fun n v => n + v.dependents.length) (start.length + 1)) start []

/-- Every id that depends on `id`, directly or not, sorted. -/
def downstream (g : Graph) (id : String) : List String :=
  match g.position? id with
  | some i => sortedNames (g.idsAt (g.downstreamAt i))
  | none => []

end Graph

end Converge
