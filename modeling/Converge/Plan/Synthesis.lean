import Converge.Fingerprint
import Converge.Plan.Removal

/-!
# Synthesis of plans

The plan that brings a recorded stack to what is declared: first the deletions, then one step for
every declared node in dependency order. Replacing a node may force the replacement of others,
which changes what their dependents can resolve, so deciding is repeated until nothing further is
forced.
-/

namespace Converge

namespace Synthesis

/-- Decisions on which nothing further is forced, and what goes by them. -/
structure Settlement where
  plans : List NodePlan
  doomed : Doomed

/-- The records of a state that may be missing. -/
def recordsOf (prior : Option State) : Table Record := (prior.map (·.resources)).getD .empty

/-- Decides with the nodes in `forced` replaced, and gives the nodes that have to be replaced on
top. -/
def round (g : Graph) (order : List Node) (prior : Option State) (forced : Table String) :
    Except PlanError (Settlement × Table String) := do
  let plans ← NodePlan.decideAll (recordsOf prior) forced .empty order
  let doomed := Doomed.ofPlans g (recordsOf prior) plans
  let further := (prior.map fun s => Cascade.forcedBy g s doomed).getD .empty
  return (⟨plans, doomed⟩, further)

/-- Repeats rounds until one forces nothing further; nothing if that takes more than `fuel`. -/
def settle (g : Graph) (order : List Node) (prior : Option State) :
    (fuel : Nat) → (forced : Table String) → Except PlanError (Option Settlement)
  | 0, _ => .ok none
  | fuel + 1, forced => do
    let (settlement, further) ← round g order prior forced
    if further.isEmpty then return some settlement
    settle g order prior fuel (forced.merge further)

/-- As many rounds as there are nodes, and one, are enough if every record stands under its own
id: every round but the last forces a node that was not forced before. -/
def roundLimit (order : List Node) : Nat := order.length + 1

/-- What some number of rounds comes to. -/
structure Ending (g : Graph) (order : List Node) (prior : Option State) where
  result : Except PlanError Settlement
  reached : ∃ rounds, settle g order prior rounds .empty = result.map some

/-- Tries a number of rounds, and if they are not enough goes on to the next. -/
def attempt (g : Graph) (order : List Node) (prior : Option State) (rounds : Nat) :
    Nat ⊕ Option (Ending g order prior) :=
  match h : settle g order prior rounds .empty with
  | .error cause => .inr (some ⟨.error cause, rounds, h⟩)
  | .ok (some settlement) => .inr (some ⟨.ok settlement, rounds, h⟩)
  | .ok none => .inl (rounds + 1)

/-- Tries more and more rounds. If no number of them is enough this does not end, and it is nothing
since there is no ending that it could be. -/
def search (g : Graph) (order : List Node) (prior : Option State) (rounds : Nat) :
    Option (Ending g order prior) :=
  repeatM (m := Id) (attempt g order prior) rounds

/-- What deciding comes to, if it ends. -/
def outcome (g : Graph) (order : List Node) (prior : Option State) :
    Option (Except PlanError Settlement) :=
  match settle g order prior (roundLimit order) .empty with
  | .error cause => some (.error cause)
  | .ok (some settlement) => some (.ok settlement)
  | .ok none => (search g order prior (roundLimit order)).map (·.result)

/-- The step for a planned node. `placed` are the indices of the steps of the nodes before it, and
`deleted` those of the deletions. -/
def stepFor (g : Graph) (deleted placed : Table Nat) (index : Nat) (p : NodePlan) : Step :=
  let dependencies := g.dependencies p.node.id
  let replaced := if p.decision = .replace then [p.node.id] else []
  let waits := dependencies.filterMap placed.get? ++ replaced.filterMap deleted.get?
  let step : Step := {
    index
    nodeId := p.node.id
    kind := p.node.kind
    action := p.decision.action
    resolved := p.resolved
    deferred := p.deferred
    dependsOn := sortBy (· ≤ ·) waits
    changes := p.changes
    reason := p.reason
    dependencies
    removalPolicy := p.node.removalPolicy }
  match p.node.lifecycle, p.decision, p.prior with
  | .existing providerId outputs, _, _ =>
    { step with providerId := some providerId, outputs, managed := false }
  | .managed, .keep, some r | .managed, .update, some r =>
    { step with providerId := some r.providerId, outputs := r.outputs }
  | _, _, _ => step

/-- The steps for planned nodes, from index `next` on. -/
def stepsFor (g : Graph) (deleted placed : Table Nat) (next : Nat) : List NodePlan → List Step
  | [] => []
  | p :: rest =>
    stepFor g deleted placed next p ::
      stepsFor g deleted (placed.insert p.node.id next) (next + 1) rest

/-- The index of every step by the node it acts on. -/
def indicesByNode (steps : List Step) : Table Nat :=
  .ofList (steps.map fun step => (step.nodeId, step.index))

/-- The steps that bring a recorded stack to what a graph declares. Where deciding goes on for ever
there are none, and an error stands for that. -/
def steps (g : Graph) (prior : Option State) : Except Error (List Step) := do
  let order ← g.sortedNodes.mapError .graph
  match outcome g order prior with
  | none => throw (.internal "replacements do not settle")
  | some result =>
    let settlement ← result.mapError .plan
    let deletions ←
      match prior with
      | some s => (Removal.steps s settlement.doomed).mapError .graph
      | none => pure []
    return deletions ++
      stepsFor g (indicesByNode deletions) .empty deletions.length settlement.plans

end Synthesis

namespace Plan

/-- The plan that brings a recorded stack to what a graph declares. -/
def synthesize (g : Graph) (prior : Option State) (now : Instant) : Except Error Plan := do
  let steps ← Synthesis.steps g prior
  return { createdAt := now, configHash := Fingerprint.ofGraph g, steps }

/-- The plan that removes everything recorded. -/
def synthesizeDestroy (s : State) (now : Instant) : Except Error Plan := do
  let steps ← (Removal.steps s (Doomed.everything s)).mapError .graph
  return { createdAt := now, configHash := "", steps }

/-- The plan that does nothing. -/
def nothing (now : Instant) : Plan := { createdAt := now, configHash := "", steps := [] }

end Plan

end Converge
