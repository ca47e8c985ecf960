import Converge.Graph.Basic

/-!
# Order of a graph

Nodes are placed one after the other, each after everything it depends on. Of the nodes that could
come next the one declared first does, so the order is determined by the graph. A graph with a
cycle has no order, and the error shows a cycle.
-/

namespace Converge

/-- A sort under way. -/
structure Sorting where
  /-- For every position, how many of its dependencies are not placed yet. -/
  pending : List Nat
  /-- The positions that wait for nothing and are not placed, increasing. -/
  ready : List Nat
  /-- The positions placed so far, in order. -/
  placed : List Nat
deriving DecidableEq, Repr

namespace Sorting

/-- Nothing is placed, and ready is what has no dependencies. -/
def start (g : Graph) : Sorting where
  pending := g.vertices.map (·.dependencies.length)
  ready := (List.range g.size).filter fun i => (g.dependenciesAt i).isEmpty
  placed := []

/-- One dependency of the node at `i` has been placed. -/
def release (s : Sorting) (i : Nat) : Sorting :=
  let left := s.pending.getD i 0 - 1
  { s with
    pending := s.pending.set i left
    ready := if left = 0 then Positions.insert i s.ready else s.ready }

/-- Places the first ready node, if there is one. -/
def step (g : Graph) (s : Sorting) : Sorting :=
  match s.ready with
  | [] => s
  | i :: ready =>
    (g.dependentsAt i).foldl release { s with ready, placed := s.placed ++ [i] }

/-- Places up to `count` nodes. -/
def run (g : Graph) : (count : Nat) → Sorting → Sorting
  | 0, s => s
  | count + 1, s => run g count (s.step g)

/-- The sort when nothing more can be placed. -/
def finish (g : Graph) : Sorting := run g g.size (start g)

end Sorting

namespace Graph

/-- Walks from one node that is not placed to its first dependency of that sort, until one
repeats. The answer goes from the repeated node back to it. -/
def closeWalk (g : Graph) (pending : List Nat) : (fuel : Nat) → (walk : List Nat) → Nat → List Nat
  | 0, walk, _ => walk
  | fuel + 1, walk, i =>
    if walk.contains i then walk.dropWhile (· != i) ++ [i]
    else
      match (g.dependenciesAt i).find? (fun j => 0 < pending.getD j 0) with
      | some j => g.closeWalk pending fuel (walk ++ [i]) j
      | none => walk ++ [i]

/-- A cycle among the nodes that still wait for others. -/
def cycle (g : Graph) (pending : List Nat) : List Nat :=
  match pending.findIdx? (0 < ·) with
  | some i => g.closeWalk pending (g.size + 1) [] i
  | none => []

/-- The positions in dependency order. -/
def sort (g : Graph) : Except GraphError (List Nat) :=
  let s := Sorting.finish g
  if s.placed.length < g.size then .error (.cycle (g.idsAt (g.cycle s.pending)))
  else .ok s.placed

/-- The ids in dependency order. -/
def order (g : Graph) : Except GraphError (List String) := return g.idsAt (← g.sort)

/-- The nodes in dependency order. -/
def sortedNodes (g : Graph) : Except GraphError (List Node) :=
  return (← g.sort).filterMap fun i => g.vertices[i]?.map (·.node)

end Graph

end Converge
