import Converge.Execution.Report
import Converge.State.Basic

/-!
# Folding reports into the state

What an apply has done becomes part of the state. Only steps that succeeded are recorded; the
resources of all others stay as they were, so that the next plan takes them up again.
-/

namespace Converge.State

/-- The record of a resource that a step has created. -/
def createdRecord (step : Step) (outcome : Outcome) (now : Instant) : Record :=
  { Record.new step.nodeId step.kind (outcome.providerId.getD "") now with
    attributes := outcome.applied
    outputs := outcome.outputs
    dependencies := step.dependencies
    removalPolicy := step.removalPolicy }

/-- Changes the record of an id, if there is one. -/
def modifyRecord (s : State) (id : String) (f : Record → Record) : State :=
  match s.get? id with
  | some r => { s with resources := s.resources.insert id (f r) }
  | none => s

/-- Records a step that has succeeded. -/
def recordStep (s : State) (step : Step) (outcome : Outcome) (now : Instant) : State :=
  match step.action with
  | .delete => s.remove step.nodeId now
  | .create => s.setRecord (createdRecord step outcome now) now
  | .update =>
    s.modifyRecord step.nodeId fun r =>
      { r with
        attributes := outcome.applied
        outputs := outcome.outputs
        dependencies := step.dependencies
        removalPolicy := step.removalPolicy
        updatedAt := now }
  | .noop =>
    if step.managed then
      s.modifyRecord step.nodeId fun r =>
        { r with dependencies := step.dependencies, removalPolicy := step.removalPolicy }
    else s.remove step.nodeId now

/-- Records an outcome, if its step succeeded. -/
def recordOutcome (plan : Plan) (now : Instant) (s : State) (outcome : Outcome) : State :=
  if outcome.status = .succeeded then
    match plan.steps[outcome.index]? with
    | some step => s.recordStep step outcome now
    | none => s
  else s

/-- What an apply leaves in the history. -/
def historyOf (plan : Plan) (report : Report) (operation : Operation) (now : Instant) :
    HistoryEntry :=
  let failure (id : String) (result : NodeResult) : String :=
    id ++ ": " ++ result.lastError.getD "failed"
  let failures := report.failed.map fun (id, result) => failure id result
  { timestamp := now
    operation
    configHash := plan.configHash
    resources := (plan.steps.filter (·.action != .noop)).map (·.nodeId)
    success := report.isSuccess
    error := if failures.isEmpty then none else some (String.intercalate "; " failures) }

/-- The state after an apply. -/
def applyReport (s : State) (plan : Plan) (report : Report) (operation : Operation)
    (now : Instant) : State :=
  let recorded := report.steps.foldl (recordOutcome plan now) s
  let hashed := if report.isSuccess then { recorded with configHash := plan.configHash } else recorded
  { hashed.addHistory (historyOf plan report operation now) with lastUpdated := now }

end Converge.State
