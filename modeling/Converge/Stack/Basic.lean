import Converge.Exposure.Wiring
import Converge.Stack.Settings

/-!
# Declared stacks

A stack as its declaration gives it: the settings, and the resources in the order in which they are
declared.
-/

namespace Converge

/-- A resource that this stack looks up and does not own. -/
structure ExistingResource where
  providerId : String
  outputs : Outputs := .empty

/-- A declared resource. -/
structure Declaration where
  id : String
  kind : Kind
  attributes : Declared := .empty
  /-- Ids to wait for, apart from those that attributes refer to. -/
  dependsOn : List String := []
  existing : Option ExistingResource := none
  removalPolicy : RemovalPolicy := .destroy
  expose : Option Exposure := none

/-- A declared stack. -/
structure Stack where
  project : Project
  state : StateSettings := {}
  provider : ProviderSettings := {}
  apply : ApplySettings := {}
  resources : List Declaration := []

namespace ExistingResource

def toJson (existing : ExistingResource) : Json :=
  .object [
    ("provider_id", .string existing.providerId),
    ("outputs", .ofAttributes existing.outputs)]

def ofJson (value : Json) : Decode ExistingResource := do
  let fields ← value.asRecord
  let outputs ← Decode.fieldOr fields "outputs" .empty Json.asAttributes
  let providerId ← Decode.field? fields "provider_id" Json.asString
  return { providerId := ← Decode.need providerId, outputs }

end ExistingResource

namespace Declaration

/-- The node that a declaration stands for, without those derived from its ports. -/
def node (d : Declaration) : Node where
  id := d.id
  kind := d.kind
  attributes := d.attributes
  dependsOn := sortedNames d.dependsOn
  lifecycle := match d.existing with
    | some existing => .existing existing.providerId existing.outputs
    | none => .managed
  removalPolicy := d.removalPolicy

def toJson (d : Declaration) : Json :=
  .object ([
    ("id", .string d.id),
    ("kind", d.kind.toJson),
    ("attributes", .ofTable AttributeValue.toJson d.attributes),
    ("depends_on", .ofStrings d.dependsOn)] ++
    (d.existing.toList.map fun existing => ("existing", existing.toJson)) ++
    [("removal_policy", d.removalPolicy.toJson)] ++
    d.expose.toList.map fun expose => ("expose", expose.toJson))

def ofJson (value : Json) : Decode Declaration := do
  let fields ← value.asRecord
  let attributes ← Decode.fieldOr fields "attributes" .empty (Json.asTable AttributeValue.ofJson)
  let dependsOn ← Decode.fieldOr fields "depends_on" [] (Json.asList Json.asString)
  let existing ← Decode.optional fields "existing" ExistingResource.ofJson
  let expose ← Decode.optional fields "expose" Exposure.ofJson
  let id ← Decode.field? fields "id" Json.asString
  let kind ← Decode.field? fields "kind" Kind.ofJson
  let removalPolicy ← Decode.fieldOr fields "removal_policy" .destroy RemovalPolicy.ofJson
  return {
    id := ← Decode.need id
    kind := ← Decode.need kind
    attributes, dependsOn, existing, removalPolicy, expose }

end Declaration

namespace Stack

/-- The first declaration of an id. -/
def resource? (s : Stack) (id : String) : Option Declaration := s.resources.find? (·.id == id)

/-- Number of ports that the services of a stack expose. -/
def exposedPortCount (s : Stack) : Nat :=
  (s.resources.filterMap (·.expose)).foldl (fun n exposure => n + exposure.ports.length) 0

/-- The name under which the state of a stack is kept. -/
def stateKey (s : Stack) : String := s!"{s.project.name}-{s.project.environment}"

def toJson (s : Stack) : Json :=
  .object [
    ("project", s.project.toJson),
    ("state", s.state.toJson),
    ("provider", s.provider.toJson),
    ("apply", s.apply.toJson),
    ("resources", .array (s.resources.map Declaration.toJson))]

def ofJson (value : Json) : Decode Stack := do
  let fields ← value.asRecord
  let apply ← Decode.fieldOr fields "apply" {} ApplySettings.ofJson
  let project ← Decode.field? fields "project" Project.ofJson
  let provider ← Decode.fieldOr fields "provider" {} ProviderSettings.ofJson
  let resources ← Decode.fieldOr fields "resources" [] (Json.asList Declaration.ofJson)
  let state ← Decode.fieldOr fields "state" {} StateSettings.ofJson
  return { project := ← Decode.need project, state, provider, apply, resources }

end Stack

end Converge
