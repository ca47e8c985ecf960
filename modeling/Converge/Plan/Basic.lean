import Converge.Instant.Text
import Converge.Json.Writer
import Converge.Resource.Node

/-!
# Plans

A plan is a list of steps that brings live resources to what is declared. Every step names the
steps it has to wait for by their index.
-/

namespace Converge

/-- What a step does. -/
inductive Action where
  | create
  | update
  | delete
  | noop
deriving DecidableEq, Repr, Inhabited

/-- A difference between the recorded and the wanted value of an attribute. -/
structure Change where
  name : String
  old : Option Json
  new : Option Json
  /-- Whether the wanted value shows only when the plan is applied. -/
  deferred : Bool := false
  /-- Whether the resource has to be replaced for it. -/
  forcesReplacement : Bool := false

/-- One step of a plan. -/
structure Step where
  index : Nat
  nodeId : String
  kind : Kind
  action : Action
  /-- Attributes whose values are known when the plan is made. -/
  resolved : Attributes := .empty
  /-- Attributes that refer to outputs of steps of the same plan. -/
  deferred : Declared := .empty
  /-- Indices of the steps to wait for. -/
  dependsOn : List Nat := []
  providerId : Option String := none
  outputs : Outputs := .empty
  changes : List Change := []
  reason : String := ""
  /-- Ids that the node depends on, which are recorded when the step succeeds. -/
  dependencies : List String := []
  removalPolicy : RemovalPolicy := .destroy
  /-- Whether this stack owns the resource. -/
  managed : Bool := true

/-- A plan. -/
structure Plan where
  createdAt : Instant
  /-- The fingerprint of the graph that the plan brings about; empty if it removes the stack. -/
  configHash : String
  steps : List Step

namespace Action

/-- The name in documents. -/
def name : Action → String
  | .create => "create"
  | .update => "update"
  | .delete => "delete"
  | .noop => "no_op"

/-- The name in texts. -/
def display : Action → String
  | .noop => "noop"
  | action => action.name

/-- The mark in front of a step. -/
def symbol : Action → String
  | .create => "+"
  | .update => "~"
  | .delete => "-"
  | .noop => " "

def all : List Action := [.create, .update, .delete, .noop]

end Action

namespace Change

/-- The text of a value that may be absent. -/
def showValue (value : Option Json) : String := (value.map Json.compact).getD "(none)"

def text (change : Change) : String :=
  let new := if change.deferred then "(known after apply)" else showValue change.new
  let mark := if change.forcesReplacement then " (forces replacement)" else ""
  s!"{change.name}: {showValue change.old} -> {new}{mark}"

end Change

namespace Step

/-- Whether the step only forgets a resource and leaves the live one alone. -/
def isRetainedDelete (step : Step) : Bool := step.action = .delete && step.removalPolicy = .retain

/-- Whether the step calls the provider. -/
def callsProvider (step : Step) : Bool := step.action != .noop && !step.isRetainedDelete

def hasDeferred (step : Step) : Bool := !step.deferred.isEmpty

def description (step : Step) : String :=
  match step.action with
  | .create => s!"Create {step.kind.name} '{step.nodeId}'"
  | .update => s!"Update {step.kind.name} '{step.nodeId}'"
  | .delete =>
    if step.isRetainedDelete then s!"Forget {step.kind.name} '{step.nodeId}' (retained)"
    else s!"Delete {step.kind.name} '{step.nodeId}'"
  | .noop => s!"No change for '{step.nodeId}'"

def text (step : Step) : String :=
  let reason := if step.reason.isEmpty then "" else s!" ({step.reason})"
  s!"{step.action.symbol} {step.description}{reason}"

end Step

namespace Plan

/-- Whether there is nothing to do. -/
def isConverged (plan : Plan) : Bool := plan.steps.all (·.action = .noop)

/-- Number of steps with a given action. -/
def count (plan : Plan) (action : Action) : Nat := plan.steps.countP (·.action = action)

/-- Number of steps that do something. -/
def changeCount (plan : Plan) : Nat := plan.steps.length - plan.count .noop

/-- The steps of a node. -/
def stepsFor (plan : Plan) (id : String) : List Step := plan.steps.filter (·.nodeId == id)

/-- Whether a list of steps is numbered from `i` on, and every step waits for earlier ones only. -/
def wellOrderedFrom (i : Nat) : List Step → Bool
  | [] => true
  | step :: rest =>
    step.index = i && step.dependsOn.all (· < i) && wellOrderedFrom (i + 1) rest

/-- Whether every step stands at its index and waits for earlier steps only. -/
def isWellOrdered (plan : Plan) : Bool := wellOrderedFrom 0 plan.steps

def text (plan : Plan) : String :=
  if plan.isConverged then "No changes required"
  else
    let head := s!"Plan: {plan.count .create} to create, {plan.count .update} to update, {plan.count .delete} to delete, {plan.count .noop} unchanged\n"
    let stepText (step : Step) : String :=
      s!"  {step.text}\n" ++ String.join (step.changes.map fun change => s!"      {change.text}\n")
    head ++ String.join ((plan.steps.filter (·.action != .noop)).map stepText)

end Plan

/-! ## Documents -/

namespace Action

def toJson (action : Action) : Json := .string action.name

def ofJson (value : Json) : Decode Action :=
  value.asEnum (all.map fun action => (action.name, action))

end Action

namespace Change

def toJson (change : Change) : Json :=
  .object [
    ("attribute", .string change.name),
    ("old", change.old.getD .null),
    ("new", change.new.getD .null),
    ("deferred", .bool change.deferred),
    ("forces_replacement", .bool change.forcesReplacement)]

def ofJson (value : Json) : Decode Change := do
  let fields ← value.asRecord
  let name ← Decode.field? fields "attribute" Json.asString
  let deferred ← Decode.fieldOr fields "deferred" false Json.asBool
  let forcesReplacement ← Decode.fieldOr fields "forces_replacement" false Json.asBool
  let new ← Decode.optional fields "new" Json.asValue
  let old ← Decode.optional fields "old" Json.asValue
  return { name := ← Decode.need name, old, new, deferred, forcesReplacement }

end Change

namespace Step

def toJson (step : Step) : Json :=
  .object ([
    ("index", .natural step.index),
    ("node_id", .string step.nodeId),
    ("kind", step.kind.toJson),
    ("action", step.action.toJson),
    ("resolved_attributes", .ofAttributes step.resolved)] ++
    (if step.deferred.isEmpty then []
      else [("deferred_attributes", .ofTable AttributeValue.toJson step.deferred)]) ++
    [("depends_on", .array (step.dependsOn.map .natural))] ++
    (step.providerId.toList.map fun id => ("provider_id", .string id)) ++
    (if step.outputs.isEmpty then [] else [("outputs", .ofAttributes step.outputs)]) ++
    (if step.changes.isEmpty then [] else [("changes", .array (step.changes.map Change.toJson))]) ++ [
    ("reason", .string step.reason),
    ("dependencies", .ofStrings step.dependencies),
    ("removal_policy", step.removalPolicy.toJson),
    ("managed", .bool step.managed)])

def ofJson (value : Json) : Decode Step := do
  let fields ← value.asRecord
  let action ← Decode.field? fields "action" Action.ofJson
  let changes ← Decode.fieldOr fields "changes" [] (Json.asList Change.ofJson)
  let deferred ←
    Decode.fieldOr fields "deferred_attributes" .empty (Json.asTable AttributeValue.ofJson)
  let dependencies ← Decode.fieldOr fields "dependencies" [] (Json.asList Json.asString)
  let dependsOn ← Decode.fieldOr fields "depends_on" [] (Json.asList (Json.asUnsigned 64))
  let index ← Decode.field? fields "index" (Json.asUnsigned 64)
  let kind ← Decode.field? fields "kind" Kind.ofJson
  let managed ← Decode.fieldOr fields "managed" true Json.asBool
  let nodeId ← Decode.field? fields "node_id" Json.asString
  let outputs ← Decode.fieldOr fields "outputs" .empty Json.asAttributes
  let providerId ← Decode.optional fields "provider_id" Json.asString
  let reason ← Decode.fieldOr fields "reason" "" Json.asString
  let removalPolicy ← Decode.fieldOr fields "removal_policy" .destroy RemovalPolicy.ofJson
  let resolved ← Decode.fieldOr fields "resolved_attributes" .empty Json.asAttributes
  return {
    index := ← Decode.need index
    nodeId := ← Decode.need nodeId
    kind := ← Decode.need kind
    action := ← Decode.need action
    resolved, deferred, dependsOn, providerId, outputs, changes, reason, dependencies,
    removalPolicy, managed }

end Step

namespace Plan

def toJson (plan : Plan) : Json :=
  .object [
    ("created_at", plan.createdAt.toJson),
    ("config_hash", .string plan.configHash),
    ("steps", .array (plan.steps.map Step.toJson))]

def ofJson (value : Json) : Decode Plan := do
  let fields ← value.asRecord
  let configHash ← Decode.field? fields "config_hash" Json.asString
  let createdAt ← Decode.field? fields "created_at" Instant.ofJson
  let steps ← Decode.field? fields "steps" (Json.asList Step.ofJson)
  return {
    createdAt := ← Decode.need createdAt
    configHash := ← Decode.need configHash
    steps := ← Decode.need steps }

end Plan

end Converge
