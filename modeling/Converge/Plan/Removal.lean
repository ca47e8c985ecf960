import Converge.Graph.Order
import Converge.Plan.Decision

/-!
# Removal

Which recorded resources have to go, what else goes with them, and in which order. A resource that
was recorded as depending on one that is deleted cannot be kept, so it is replaced as well; a
resource that is only forgotten forces nothing.
-/

namespace Converge

/-- Ids of recorded resources that go, with the reason. -/
abbrev Doomed := Table String

namespace Doomed

/-- Resources that are recorded and not declared. -/
def orphans (g : Graph) (records : Table Record) : Doomed :=
  (records.filter fun id _ => !g.contains id).map fun _ => "no longer declared"

/-- Orphans, and the nodes that are replaced. -/
def ofPlans (g : Graph) (records : Table Record) (plans : List NodePlan) : Doomed :=
  let replaced := plans.filter (·.decision = .replace)
  replaced.foldl (fun doomed p => doomed.insert p.node.id s!"replaced: {p.reason}") (orphans g records)

/-- Everything that is recorded. -/
def everything (s : State) : Doomed := s.resources.map fun _ => "stack destroyed"

end Doomed

/-! ## Cascade -/

/-- The spread of deletions to recorded dependents. -/
structure Cascade where
  /-- Ids whose resources are deleted. -/
  removed : List String
  /-- Ids of nodes to replace for that, with the reason. -/
  forced : Table String := .empty

namespace Cascade

/-- Begins with the doomed resources that are deleted and not just forgotten. -/
def start (s : State) (doomed : Doomed) : Cascade where
  removed := doomed.names.filter fun id =>
    ((s.get? id).map fun r => r.removalPolicy == .destroy).getD false

/-- Forces a record whose node would be kept and that depends on a deleted resource. -/
def visit (g : Graph) (doomed : Doomed) (c : Cascade) (r : Record) : Cascade :=
  let isManaged := ((g.node? r.id).map fun node => !node.isExisting).getD false
  if !isManaged || doomed.contains r.id || c.forced.contains r.id then c
  else
    match r.dependencies.find? c.removed.contains with
    | none => c
    | some dependency =>
      { removed := if r.removalPolicy = .destroy then r.id :: c.removed else c.removed
        forced := c.forced.insert r.id s!"dependency {dependency} is deleted" }

/-- Visits every record in the order of creation. -/
def pass (g : Graph) (s : State) (doomed : Doomed) (c : Cascade) : Cascade :=
  s.inCreationOrder.foldl (visit g doomed) c

/-- Passes over the records until a pass forces nothing more. -/
def spread (g : Graph) (s : State) (doomed : Doomed) : (fuel : Nat) → Cascade → Cascade
  | 0, c => c
  | fuel + 1, c =>
    let next := c.pass g s doomed
    if next.forced.size = c.forced.size then next else spread g s doomed fuel next

/-- The nodes to replace because something they were recorded as depending on is deleted. Every
pass but the last forces a record, so there are at most as many passes as records, and one. -/
def forcedBy (g : Graph) (s : State) (doomed : Doomed) : Table String :=
  (spread g s doomed (s.resources.size + 1) (start s doomed)).forced

end Cascade

/-! ## Deletion -/

namespace Removal

/-- The records that go, in the order of their creation. -/
def records (s : State) (doomed : Doomed) : List Record :=
  s.inCreationOrder.filter fun r => doomed.contains r.id

/-- Adds a record as a node of its own. -/
def addRecord (g : Graph) (r : Record) : Except GraphError Graph :=
  g.addNode { id := r.id, kind := r.kind }

/-- Links a record to what it was recorded as depending on, as far as that goes too. -/
def linkRecord (g : Graph) (r : Record) : Except GraphError Graph :=
  (r.dependencies.filter g.contains).foldlM (fun g dependency => g.addEdge r.id dependency) g

/-- The graph of the recorded dependencies between the resources that go. -/
def graph (s : State) (doomed : Doomed) : Except GraphError Graph := do
  let unlinked ← (records s doomed).foldlM addRecord .empty
  (records s doomed).foldlM linkRecord unlinked

/-- The indices in `placed` of a list of ids, increasing. -/
def indicesIn (placed : Table Nat) (ids : List String) : List Nat :=
  sortBy (· ≤ ·) (ids.filterMap placed.get?)

/-- The steps that delete the resources of a list of ids, from index `next` on; `placed` are the
indices of the steps before them. -/
def stepsFor (s : State) (doomed : Doomed) (g : Graph) (placed : Table Nat) (next : Nat) :
    List String → List Step
  | [] => []
  | id :: rest =>
    match s.get? id with
    | none => stepsFor s doomed g placed next rest
    | some r =>
      { index := next
        nodeId := id
        kind := r.kind
        action := .delete
        dependsOn := indicesIn placed (g.dependents id)
        providerId := some r.providerId
        outputs := r.outputs
        reason := (doomed.get? id).getD ""
        dependencies := r.dependencies
        removalPolicy := r.removalPolicy } ::
      stepsFor s doomed g (placed.insert id next) (next + 1) rest

/-- The steps that delete what is doomed: dependents before their dependencies, and unrelated
resources in the reverse of the order of their creation. -/
def steps (s : State) (doomed : Doomed) : Except GraphError (List Step) := do
  let g ← graph s doomed
  let order ← g.order
  return stepsFor s doomed g .empty 0 order.reverse

end Removal

end Converge
