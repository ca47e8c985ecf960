import Converge.Plan.Basic

/-!
# Reports

What came of every step of an apply, and the result for every node that follows from it.
-/

namespace Converge

/-- How far a step has come. -/
inductive Status where
  | pending
  | inProgress
  | succeeded
  | failed
  /-- Skipped, because a step it waits for failed. -/
  | rolledBack
deriving DecidableEq, Repr, Inhabited

/-- What came of a step. -/
structure Outcome where
  index : Nat
  nodeId : String
  action : Action
  status : Status
  /-- Number of provider calls. -/
  attempts : Nat
  providerId : Option String := none
  outputs : Outputs := .empty
  /-- The attributes that the provider was given. -/
  applied : Attributes := .empty
  error : Option String := none

/-- What came of the steps of a node. -/
structure NodeResult where
  status : Status
  attempts : Nat
  providerId : Option String := none
  outputs : Outputs := .empty
  lastError : Option String := none

/-- What came of an apply. -/
structure Report where
  results : Table NodeResult
  /-- The outcomes in the order of the plan. -/
  steps : List Outcome
  /-- Whether no further steps were started because the apply was cancelled. -/
  cancelled : Bool

namespace Status

/-- The name in documents. -/
def name : Status → String
  | .pending => "pending"
  | .inProgress => "in_progress"
  | .succeeded => "succeeded"
  | .failed => "failed"
  | .rolledBack => "rolled_back"

/-- The name in texts. -/
def display : Status → String
  | .inProgress => "in progress"
  | .rolledBack => "rolled back"
  | status => status.name

/-- Whether no step leaves this status again. -/
def isTerminal : Status → Bool
  | .pending | .inProgress => false
  | .succeeded | .failed | .rolledBack => true

def all : List Status := [.pending, .inProgress, .succeeded, .failed, .rolledBack]

end Status

namespace Outcome

/-- A step that has not been started. -/
def pending (step : Step) : Outcome where
  index := step.index
  nodeId := step.nodeId
  action := step.action
  status := .pending
  attempts := 0
  providerId := step.providerId

/-- The result of a node whose latest step this is. -/
def toResult (outcome : Outcome) (attempts : Nat) : NodeResult where
  status := outcome.status
  attempts
  providerId := outcome.providerId
  outputs := outcome.outputs
  lastError := outcome.error

end Outcome

namespace Report

/-- Adds an outcome to the results by node. Attempts add up, and a step that failed decides for its
node. -/
def addOutcome (results : Table NodeResult) (outcome : Outcome) : Table NodeResult :=
  match results.get? outcome.nodeId with
  | none => results.insert outcome.nodeId (outcome.toResult outcome.attempts)
  | some held =>
    let attempts := held.attempts + outcome.attempts
    if held.status = .failed then results.insert outcome.nodeId { held with attempts }
    else results.insert outcome.nodeId (outcome.toResult attempts)

/-- The report of a list of outcomes. -/
def ofOutcomes (steps : List Outcome) (cancelled : Bool) : Report :=
  { results := steps.foldl addOutcome .empty, steps, cancelled }

/-- Whether every step succeeded, and none was left out. -/
def isSuccess (report : Report) : Bool :=
  !report.cancelled && report.steps.all (·.status = .succeeded)

/-- The nodes that failed. -/
def failed (report : Report) : List (String × NodeResult) :=
  report.results.entries.filter (·.2.status = .failed)

/-- Number of nodes of a status. -/
def count (report : Report) (status : Status) : Nat :=
  report.results.values.countP (·.status = status)

def statusOf? (report : Report) (id : String) : Option Status :=
  (report.results.get? id).map (·.status)

def text (report : Report) : String :=
  let cancelled := if report.cancelled then " (cancelled)" else ""
  s!"Applied {report.results.size} nodes: {report.count .succeeded} succeeded, {report.count .failed} failed, {report.count .rolledBack} rolled back, {report.count .pending} pending{cancelled}"

end Report

/-! ## Documents -/

namespace Status

def toJson (status : Status) : Json := .string status.name

def ofJson (value : Json) : Decode Status :=
  value.asEnum (all.map fun status => (status.name, status))

end Status

/-- Outputs or attributes as a field that is left out when there are none. -/
def attributesField (name : String) (attributes : Attributes) : List (String × Json) :=
  if attributes.isEmpty then [] else [(name, .ofAttributes attributes)]

/-- A text as a field that is left out in its absence. -/
def textField (name : String) (text : Option String) : List (String × Json) :=
  text.toList.map fun text => (name, .string text)

namespace Outcome

def toJson (outcome : Outcome) : Json :=
  .object ([
    ("index", .natural outcome.index),
    ("node_id", .string outcome.nodeId),
    ("action", outcome.action.toJson),
    ("status", outcome.status.toJson),
    ("attempts", .natural outcome.attempts)] ++
    textField "provider_id" outcome.providerId ++
    attributesField "outputs" outcome.outputs ++
    attributesField "applied_attributes" outcome.applied ++
    textField "error" outcome.error)

def ofJson (value : Json) : Decode Outcome := do
  let fields ← value.asRecord
  let action ← Decode.field? fields "action" Action.ofJson
  let applied ← Decode.fieldOr fields "applied_attributes" .empty Json.asAttributes
  let attempts ← Decode.field? fields "attempts" (Json.asUnsigned 32)
  let error ← Decode.optional fields "error" Json.asString
  let index ← Decode.field? fields "index" (Json.asUnsigned 64)
  let nodeId ← Decode.field? fields "node_id" Json.asString
  let outputs ← Decode.fieldOr fields "outputs" .empty Json.asAttributes
  let providerId ← Decode.optional fields "provider_id" Json.asString
  let status ← Decode.field? fields "status" Status.ofJson
  return {
    index := ← Decode.need index
    nodeId := ← Decode.need nodeId
    action := ← Decode.need action
    status := ← Decode.need status
    attempts := ← Decode.need attempts
    providerId, outputs, applied, error }

end Outcome

namespace NodeResult

def toJson (result : NodeResult) : Json :=
  .object ([
    ("status", result.status.toJson),
    ("attempts", .natural result.attempts)] ++
    textField "provider_id" result.providerId ++
    attributesField "outputs" result.outputs ++
    textField "last_error" result.lastError)

def ofJson (value : Json) : Decode NodeResult := do
  let fields ← value.asRecord
  let attempts ← Decode.field? fields "attempts" (Json.asUnsigned 32)
  let lastError ← Decode.optional fields "last_error" Json.asString
  let outputs ← Decode.fieldOr fields "outputs" .empty Json.asAttributes
  let providerId ← Decode.optional fields "provider_id" Json.asString
  let status ← Decode.field? fields "status" Status.ofJson
  return {
    status := ← Decode.need status
    attempts := ← Decode.need attempts
    providerId, outputs, lastError }

end NodeResult

namespace Report

def toJson (report : Report) : Json :=
  .object [
    ("results", .ofTable NodeResult.toJson report.results),
    ("steps", .array (report.steps.map Outcome.toJson)),
    ("cancelled", .bool report.cancelled)]

def ofJson (value : Json) : Decode Report := do
  let fields ← value.asRecord
  let cancelled ← Decode.field? fields "cancelled" Json.asBool
  let results ← Decode.field? fields "results" (Json.asTable NodeResult.ofJson)
  let steps ← Decode.field? fields "steps" (Json.asList Outcome.ofJson)
  return {
    results := ← Decode.need results
    steps := ← Decode.need steps
    cancelled := ← Decode.need cancelled }

end Report

end Converge
