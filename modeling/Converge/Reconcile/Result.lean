import Converge.Execution.Report

/-!
# Results of reconciling

What reconciling a stack came to, and how far a recorded stack is from its declaration.
-/

namespace Converge

/-- What an apply or a removal of a stack came to. -/
structure Reconciliation where
  success : Bool
  created : Nat
  updated : Nat
  deleted : Nat
  unchanged : Nat
  errors : List String
  plan : Plan
  /-- What came of the steps; nothing if there was nothing to do. -/
  report : Option Report

/-- How far a recorded stack is from its declaration. -/
structure Drift where
  hasDrift : Bool
  /-- The nodes that an apply would change, with what it would do. -/
  drifted : List String
  /-- Number of declared nodes. -/
  declared : Nat
  /-- Number of recorded resources. -/
  recorded : Nat
deriving DecidableEq, Repr

namespace Reconciliation

/-- The result where nothing has to be done. -/
def converged (plan : Plan) : Reconciliation where
  success := true
  created := 0
  updated := 0
  deleted := 0
  unchanged := plan.count .noop
  errors := []
  plan
  report := none

/-- How many steps of an action have succeeded. -/
def succeeded (report : Report) (action : Action) : Nat :=
  report.steps.countP fun outcome => outcome.action = action && outcome.status = .succeeded

/-- What went wrong with a step, if something did. -/
def errorOf? (outcome : Outcome) : Option String :=
  match outcome.status with
  | .failed | .rolledBack =>
    let cause := outcome.error.getD "failed"
    some s!"{outcome.action.display} {outcome.nodeId}: {cause}"
  | _ => none

/-- Everything that went wrong. -/
def errorsOf (report : Report) : List String :=
  let pending := report.steps.countP (·.status = .pending)
  report.steps.filterMap errorOf? ++
    if report.cancelled then [s!"Apply cancelled with {pending} step(s) not started"] else []

/-- The result of an apply. -/
def ofReport (plan : Plan) (report : Report) : Reconciliation where
  success := report.isSuccess
  created := succeeded report .create
  updated := succeeded report .update
  deleted := succeeded report .delete
  unchanged := succeeded report .noop
  errors := errorsOf report
  plan
  report := some report

def text (r : Reconciliation) : String :=
  let head := if r.success then "successful" else "failed"
  let counts := s!"  Created: {r.created}\n  Updated: {r.updated}\n  Deleted: {r.deleted}\n  Unchanged: {r.unchanged}\n"
  let errors :=
    if r.errors.isEmpty then ""
    else "  Errors:\n" ++ String.join (r.errors.map fun error => s!"    - {error}\n")
  s!"Reconciliation {head}:\n" ++ counts ++ errors

def toJson (r : Reconciliation) : Json :=
  .object ([
    ("success", .bool r.success),
    ("created", .natural r.created),
    ("updated", .natural r.updated),
    ("deleted", .natural r.deleted),
    ("unchanged", .natural r.unchanged),
    ("errors", .ofStrings r.errors),
    ("plan", r.plan.toJson)] ++
    r.report.toList.map fun report => ("report", report.toJson))

def ofJson (value : Json) : Decode Reconciliation := do
  let fields ← value.asRecord
  let count (name : String) : Decode Nat := do
    Decode.need (← Decode.field? fields name (Json.asUnsigned 64))
  let created ← count "created"
  let deleted ← count "deleted"
  let errors ← Decode.field? fields "errors" (Json.asList Json.asString)
  let plan ← Decode.field? fields "plan" Plan.ofJson
  let report ← Decode.optional fields "report" Report.ofJson
  let success ← Decode.field? fields "success" Json.asBool
  let unchanged ← count "unchanged"
  let updated ← count "updated"
  return {
    success := ← Decode.need success
    created, updated, deleted, unchanged
    errors := ← Decode.need errors
    plan := ← Decode.need plan
    report }

end Reconciliation

namespace Drift

/-- How far the stack is from its declaration that a plan would bring there. -/
def ofPlan (plan : Plan) (declared recorded : Nat) : Drift where
  hasDrift := !plan.isConverged
  drifted := (plan.steps.filter (·.action != .noop)).map fun step =>
    s!"{step.nodeId} ({step.action.display})"
  declared
  recorded

def text (drift : Drift) : String :=
  if drift.hasDrift then
    "Drift detected:\n" ++ String.join (drift.drifted.map fun node => s!"  - {node}\n")
  else "No drift detected - state is converged"

def toJson (drift : Drift) : Json :=
  .object [
    ("has_drift", .bool drift.hasDrift),
    ("drifted_resources", .ofStrings drift.drifted),
    ("total_resources", .natural drift.declared),
    ("recorded_count", .natural drift.recorded)]

def ofJson (value : Json) : Decode Drift := do
  let fields ← value.asRecord
  let drifted ← Decode.field? fields "drifted_resources" (Json.asList Json.asString)
  let hasDrift ← Decode.field? fields "has_drift" Json.asBool
  let recorded ← Decode.field? fields "recorded_count" (Json.asUnsigned 64)
  let declared ← Decode.field? fields "total_resources" (Json.asUnsigned 64)
  return {
    hasDrift := ← Decode.need hasDrift
    drifted := ← Decode.need drifted
    declared := ← Decode.need declared
    recorded := ← Decode.need recorded }

end Drift

end Converge
