import Converge.Graph.Order
import Converge.Stack.Basic

/-!
# The graph of a stack

Every declared node joins the graph in order, and right after a service those derived from its
ports. Then every node is linked to all it depends on. The result is a graph that has an order, or
an error; there is no partial graph.
-/

namespace Converge

namespace Declaration

/-- The nodes that a declaration brings: its own, then those of its ports. -/
def addTo (d : Declaration) (g : Graph) : Except Error Graph := do
  let own ← (g.addNode d.node).mapError .graph
  match d.expose with
  | none => return own
  | some exposure =>
    let derived ← (exposure.derivedNodes d.id).mapError .config
    (derived.foldlM Graph.addNode own).mapError .graph

end Declaration

namespace Graph

/-- Links a node to everything it depends on. -/
def linkNode (g : Graph) (node : Node) : Except GraphError Graph :=
  node.dependencyIds.foldlM (fun g dependency => g.addEdge node.id dependency) g

/-- The graph of a list of declarations. -/
def ofDeclarations (declarations : List Declaration) : Except Error Graph := do
  let unlinked ← declarations.foldlM (fun g d => d.addTo g) empty
  let g ← (unlinked.nodes.foldlM linkNode unlinked).mapError .graph
  let _ ← g.sort.mapError .graph
  return g

/-- The graph of a stack. -/
def ofStack (s : Stack) : Except Error Graph := ofDeclarations s.resources

end Graph

end Converge
