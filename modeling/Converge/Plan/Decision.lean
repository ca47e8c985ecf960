import Converge.Plan.Patch
import Converge.Plan.Substitution
import Converge.State.Basic

/-!
# Decisions

What becomes of every declared node, decided in dependency order. A reference to a node that is
kept resolves to its recorded output; one to a node that is created, replaced or updated in that
place shows only when the plan is applied.
-/

namespace Converge

/-- What happens to a declared node. -/
inductive Decision where
  | create
  | replace
  | update
  | keep
  /-- Nothing, because the stack does not own it. -/
  | existing
deriving DecidableEq, Repr

/-- What later decisions know of a node. -/
structure Verdict where
  decision : Decision
  /-- Outputs that can be used right away. -/
  outputs : Outputs := .empty
  /-- Attributes that an update is about to change. -/
  changing : List String := []

/-- The verdicts so far, by node id. -/
abbrev Verdicts := Table Verdict

/-- A node with its decision. -/
structure NodePlan where
  node : Node
  decision : Decision
  resolved : Attributes := .empty
  deferred : Declared := .empty
  changes : List Change := []
  reason : String
  /-- The record of the node. -/
  prior : Option Record

namespace Decision

/-- The action of the step that carries out the decision. -/
def action : Decision → Action
  | .create | .replace => .create
  | .update => .update
  | .keep | .existing => .noop

end Decision

namespace Verdict

/-- What is known of an output of the node. -/
def lookup (v : Verdict) (output : String) : Lookup :=
  match v.decision with
  | .create | .replace => .deferred
  | .update =>
    match v.outputs.get? output with
    | some value => if v.changing.contains output then .deferred else .known value
    | none => .deferred
  | .keep | .existing =>
    match v.outputs.get? output with
    | some value => .known value
    | none => .missing

/-- What is known of a reference. -/
def lookupIn (verdicts : Verdicts) (target : Reference) : Lookup :=
  match verdicts.get? target.nodeId with
  | some verdict => verdict.lookup target.output
  | none => .missing

end Verdict

namespace NodePlan

/-- What later decisions may know of a planned node. -/
def verdict (p : NodePlan) : Verdict :=
  match p.decision, p.node.lifecycle, p.prior with
  | .existing, .existing _ outputs, _ => { decision := .existing, outputs }
  | .keep, _, some prior => { decision := .keep, outputs := prior.outputs }
  | .update, _, some prior =>
    { decision := .update, outputs := prior.outputs, changing := p.changes.map (·.name) }
  | decision, _, _ => { decision }

/-- Parts the attributes of a node into those whose values are known and those that are deferred.
The error is the first attribute with a reference that nothing brings. -/
def resolveAttributes (node : Node) (verdicts : Verdicts) :
    List (String × AttributeValue) → Except PlanError (Attributes × Declared)
  | [] => .ok (.empty, .empty)
  | (name, value) :: rest =>
    match value.resolveWith (Verdict.lookupIn verdicts) with
    | .unresolved _ => .error (.unresolvedReference node.id name)
    | .resolved known => do
      let (resolved, deferred) ← resolveAttributes node verdicts rest
      return (resolved.insert name known, deferred)
    | .deferred => do
      let (resolved, deferred) ← resolveAttributes node verdicts rest
      return (resolved, deferred.insert name value)

/-- The decision for a node with a record, its changes and the reason. -/
def compare (node : Node) (prior : Record) (resolved : Attributes) (deferred : Declared) :
    Decision × List Change × String :=
  if prior.kind != node.kind then
    (.replace, [], s!"kind changed from {prior.kind.name} to {node.kind.name}")
  else
    let patch := Patch.between node.kind resolved deferred prior.attributes
    match patch.extent with
    | .unchanged => (.keep, [], "")
    | .update => (.update, patch.changes, s!"{patch.changes.length} attribute(s) changed")
    | .replace =>
      let cause : PlanError := .immutableAttributeChanged node.id (patch.trigger?.getD "")
      (.replace, patch.changes, cause.message)

/-- Decides on a node by itself. -/
def decide (node : Node) (prior : Option Record) (verdicts : Verdicts) :
    Except PlanError NodePlan :=
  if node.isExisting then
    .ok { node, decision := .existing, reason := "existing resource", prior }
  else do
    let (resolved, deferred) ← resolveAttributes node verdicts node.attributes.entries
    match prior with
    | none => return { node, decision := .create, resolved, deferred, reason := "not yet created", prior }
    | some recorded =>
      let (decision, changes, reason) := compare node recorded resolved deferred
      return { node, decision, resolved, deferred, changes, reason, prior }

/-- Replaces a node that would be kept or updated, for a reason that lies elsewhere. -/
def force (p : NodePlan) (reason : Option String) : NodePlan :=
  match p.decision, reason with
  | .update, some reason | .keep, some reason => { p with decision := .replace, reason }
  | _, _ => p

/-- Decides on nodes in dependency order, of which those in `forced` are replaced. -/
def decideAll (records : Table Record) (forced : Table String) (verdicts : Verdicts) :
    List Node → Except PlanError (List NodePlan)
  | [] => .ok []
  | node :: rest => do
    let own ← decide node (records.get? node.id) verdicts
    let own := own.force (forced.get? node.id)
    let others ← decideAll records forced (verdicts.insert node.id own.verdict) rest
    return own :: others

end NodePlan

end Converge
