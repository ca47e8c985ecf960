import Converge.Console.Grid
import Converge.Fingerprint
import Converge.Graph.Order
import Converge.Reconcile.Result
import Converge.Stack.Check
import Converge.State.Basic
import Converge.State.Lock

/-!
# Views

How plans, graphs, states and results look on a terminal, and as documents.
-/

namespace Converge

/-- The form of what is shown. -/
inductive Format where
  | text
  | json
deriving DecidableEq, Repr, Inhabited

namespace Format

def name : Format → String
  | .text => "text"
  | .json => "json"

def all : List Format := [.text, .json]

end Format

namespace View

/-- A text of at most `limit` characters, the last three of which are points if it was cut. -/
def truncate (limit : Nat) (text : String) : String :=
  if text.length ≤ limit then text else (text.take (limit - 3)).toString ++ "..."

/-- Lines, each with its end. -/
def unlines (lines : List String) : String := String.join (lines.map (· ++ "\n"))

/-- A grid with the end of its last line. -/
def table (header : List String) (rows : List (List String)) : String :=
  ({ header, rows } : Grid).render ++ "\n"

def actionMark (action : Action) (isRetained : Bool) : String :=
  match action with
  | .create => "+create"
  | .update => "~update"
  | .delete => if isRetained then "-forget" else "-delete"
  | .noop => "noop"

/-! ## Plans -/

def stepRow (step : Step) : List String :=
  [toString step.index, actionMark step.action step.isRetainedDelete, step.nodeId, step.kind.name,
    String.intercalate "," (step.dependsOn.map toString), truncate 40 step.reason]

def changeLines (step : Step) : List String :=
  let mark (change : Change) := if change.forcesReplacement then " (forces replacement)" else ""
  s!"   {step.action.symbol} {step.nodeId}" ::
    step.changes.map fun change => "       " ++ change.text ++ mark change

def planText (plan : Plan) (isDetailed : Bool) : String :=
  if plan.isConverged then
    s!"✓ No changes required - stack is converged ({plan.steps.length} nodes).\n"
  else
    let rows := (plan.steps.filter (·.action != .noop)).map stepRow
    let details :=
      if isDetailed then
        "\nChanges:\n" ++
          unlines ((plan.steps.filter (!·.changes.isEmpty)).flatMap changeLines)
      else ""
    let deferred := plan.steps.countP (·.hasDeferred)
    let note :=
      if deferred = 0 then "" else s!"   {deferred} step(s) carry values known only after apply\n"
    s!"\nConvergence Plan\n   Config hash: {Fingerprint.short plan.configHash}\n\n" ++
      table ["#", "Action", "Resource", "Kind", "After", "Reason"] rows ++ details ++
      s!"\nPlan: {plan.count .create} to create, {plan.count .update} to update, {plan.count .delete} to destroy, {plan.count .noop} unchanged\n" ++
      note

def plan (format : Format) (isDetailed : Bool) (plan : Plan) : String :=
  match format with
  | .json => plan.toJson.pretty
  | .text => planText plan isDetailed

/-! ## Graphs -/

def nodeRow (g : Graph) (position : Nat) (node : Node) : List String :=
  [toString position, node.id, node.kind.name, String.intercalate ", " (g.dependencies node.id),
    if node.isExisting then "existing" else "managed"]

/-- The nodes of a graph in dependency order. -/
def graph (format : Format) (g : Graph) : Except GraphError String := do
  let nodes ← g.sortedNodes
  match format with
  | .json => return (Json.array (nodes.map Node.toJson)).pretty
  | .text =>
    return s!"\nDependency graph: {g.size} nodes, {g.edgeCount} edges\n\n" ++
      table ["#", "Node", "Kind", "Depends on", "Lifecycle"] (nodes.mapIdx (nodeRow g))

/-! ## Drift and results -/

def drift (format : Format) (drift : Drift) : String :=
  match format with
  | .json => drift.toJson.pretty
  | .text =>
    if drift.hasDrift then
      "⚠ Drift detected:\n\n" ++ unlines (drift.drifted.map ("   - " ++ ·)) ++
        s!"\n{drift.drifted.length} pending change(s) across {drift.declared} declared nodes ({drift.recorded} recorded).\n"
    else "✓ No drift detected - state is converged.\n"

def outcomeRow (outcome : Outcome) : List String :=
  [toString outcome.index, actionMark outcome.action false, outcome.nodeId, outcome.status.display,
    toString outcome.attempts, outcome.providerId.getD ""]

/-- The outcomes of the steps that do something, if there are any. -/
def outcomes (report : Report) : String :=
  let rows := (report.steps.filter (·.action != .noop)).map outcomeRow
  if rows.isEmpty then ""
  else table ["#", "Action", "Resource", "Status", "Attempts", "Provider ID"] rows ++ "\n"

def reconciliation (format : Format) (r : Reconciliation) : String :=
  match format with
  | .json => r.toJson.pretty
  | .text =>
    let head := if r.success then "✓ Apply complete" else "✗ Apply incomplete"
    let errors :=
      if r.errors.isEmpty then "" else "\n⚠ Errors:\n" ++ unlines (r.errors.map ("   - " ++ ·))
    head ++ "\n\n" ++ (r.report.map outcomes).getD "" ++
      s!"   Created: {r.created}\n   Updated: {r.updated}\n   Deleted: {r.deleted}\n   Unchanged: {r.unchanged}\n" ++
      errors

/-! ## States and locks -/

def recordRow (r : Record) : List String :=
  [toString r.sequence, r.id, r.kind.name, truncate 24 r.providerId, r.updatedAt.renderShort]

/-- How many entries of the history are shown. -/
def shownHistory : Nat := 5

def historyLine (entry : HistoryEntry) : String :=
  let mark := if entry.success then "✓" else "✗"
  let resources := String.intercalate ", " entry.resources
  s!"     {mark} {entry.timestamp.renderShort} - {entry.operation.display} ({resources})"

def stateText (s : State) : String :=
  let records :=
    if s.isEmpty then ""
    else "\n" ++
      table ["Seq", "Resource", "Kind", "Provider ID", "Updated"] (s.inCreationOrder.map recordRow)
  let history :=
    if s.history.isEmpty then ""
    else s!"\n   Recent history ({s.history.length}):\n" ++
      unlines ((s.history.reverse.take shownHistory).map historyLine)
  s!"\nState: {s.project}/{s.environment}\n\n   Version: {s.version}\n   Config hash: {Fingerprint.short s.configHash}\n   Last updated: {s.lastUpdated.renderPlain}\n   Resources: {s.resources.size}\n" ++
    records ++ history

def state (format : Format) (s : State) : String :=
  match format with
  | .json => s.toJson.pretty
  | .text => stateText s

def lock (format : Format) (lock : Lock) (now : Instant) : String :=
  match format with
  | .json => lock.toJson.pretty
  | .text =>
    s!"State locked by {lock.holder} (lock {lock.lockId}, expires in {lock.remainingSecs now}s)\n"

/-! ## Checks -/

def findingsJson (stack : Stack) (findings : Findings) : Json :=
  let error (finding : Finding) : Json :=
    .object [("field", .string finding.field), ("message", .string finding.message)]
  .object [
    ("errors", .array (findings.errors.map error)),
    ("resources", .natural stack.resources.length),
    ("valid", .bool findings.isValid),
    ("warnings", .ofStrings findings.warnings)]

def validationText (stack : Stack) (findings : Findings) (showsWarnings : Bool) : String :=
  let verdict :=
    if findings.isValid then "✓ Declaration is valid\n"
    else s!"✗ {findings.errors.length} error(s):\n" ++
      unlines (findings.errors.map fun finding => "   - " ++ finding.text)
  let warnings :=
    if showsWarnings && !findings.warnings.isEmpty then
      "\n⚠ Warnings:\n" ++ unlines (findings.warnings.map ("   - " ++ ·))
    else ""
  verdict ++ warnings ++
    s!"\nDeclaration summary:\n  Project: {stack.project.name}\n  Environment: {stack.project.environment}\n  Resources: {stack.resources.length}\n  Exposed ports: {stack.exposedPortCount}\n"

/-- What a check of a declaration brought to light. -/
def validation (format : Format) (stack : Stack) (findings : Findings) (showsWarnings : Bool) :
    String :=
  match format with
  | .json => (findingsJson stack findings).pretty
  | .text => validationText stack findings showsWarnings

end View

end Converge
