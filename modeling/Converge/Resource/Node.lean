import Converge.Resource.Attribute
import Converge.Resource.Kind

/-!
# Nodes

A node is a declared resource as the dependency graph knows it: its attributes, the resources it
has to wait for, whether this stack owns it, and what becomes of it when it is no longer declared.
-/

namespace Converge

/-- What providers report of a resource, by output name. -/
abbrev Outputs := Attributes

/-- Declared attributes by name. -/
abbrev Declared := Table AttributeValue

/-- Who owns the resource behind a node. -/
inductive Lifecycle where
  /-- Created, updated and deleted by this stack. -/
  | managed
  /-- Looked up and never touched; its outputs are declared up front. -/
  | existing (providerId : String) (outputs : Outputs)

/-- What becomes of a resource that is no longer declared. -/
inductive RemovalPolicy where
  /-- It is deleted through the provider. -/
  | destroy
  /-- It is forgotten, and the live resource left alone. -/
  | retain
deriving DecidableEq, Repr, Inhabited

/-- A unit of infrastructure with an id that stays. -/
structure Node where
  id : String
  kind : Kind
  attributes : Declared := .empty
  /-- Ids of nodes to wait for, apart from those that attributes refer to; sorted, without
  repetition. -/
  dependsOn : List String := []
  lifecycle : Lifecycle := .managed
  removalPolicy : RemovalPolicy := .destroy

/-- A list of names sorted and without repetition. -/
def sortedNames (names : List String) : List String :=
  (Table.ofList (names.map (·, ()))).names

namespace Lifecycle

def isExisting : Lifecycle → Bool
  | .managed => false
  | .existing _ _ => true

def toJson : Lifecycle → Json
  | .managed => .string "managed"
  | .existing providerId outputs =>
    .object [("existing", .object [
      ("provider_id", .string providerId), ("outputs", .ofAttributes outputs)])]

def ofJson : Json → Decode Lifecycle
  | .object [("existing", value)] => do
    let fields ← value.asRecord
    let outputs ← Decode.field? fields "outputs" Json.asAttributes
    let providerId ← Decode.field? fields "provider_id" Json.asString
    return .existing (← Decode.need providerId) (← Decode.need outputs)
  | value => value.asEnum [("managed", .managed)]

end Lifecycle

namespace RemovalPolicy

def name : RemovalPolicy → String
  | .destroy => "destroy"
  | .retain => "retain"

def toJson (policy : RemovalPolicy) : Json := .string policy.name

def ofJson (value : Json) : Decode RemovalPolicy :=
  value.asEnum [("destroy", .destroy), ("retain", .retain)]

end RemovalPolicy

namespace Node

def isExisting (n : Node) : Bool := n.lifecycle.isExisting

/-- Every reference in the attributes, in the order of their names. -/
def references (n : Node) : List Reference := n.attributes.values.flatMap AttributeValue.references

/-- Ids that attributes refer to, sorted. -/
def referencedIds (n : Node) : List String := sortedNames (n.references.map (·.nodeId))

/-- Every id the node waits for, named or referred to, sorted. -/
def dependencyIds (n : Node) : List String := sortedNames (n.dependsOn ++ n.referencedIds)

def toJson (n : Node) : Json :=
  .object [
    ("id", .string n.id),
    ("kind", n.kind.toJson),
    ("attributes", .ofTable AttributeValue.toJson n.attributes),
    ("depends_on", .ofStrings n.dependsOn),
    ("lifecycle", n.lifecycle.toJson),
    ("removal_policy", n.removalPolicy.toJson)]

def ofJson (value : Json) : Decode Node := do
  let fields ← value.asRecord
  let attributes ← Decode.fieldOr fields "attributes" .empty (Json.asTable AttributeValue.ofJson)
  let dependsOn ← Decode.fieldOr fields "depends_on" [] (Json.asList Json.asString)
  let id ← Decode.field? fields "id" Json.asString
  let kind ← Decode.field? fields "kind" Kind.ofJson
  let lifecycle ← Decode.fieldOr fields "lifecycle" .managed Lifecycle.ofJson
  let removalPolicy ← Decode.fieldOr fields "removal_policy" .destroy RemovalPolicy.ofJson
  return {
    id := ← Decode.need id
    kind := ← Decode.need kind
    attributes
    dependsOn := sortedNames dependsOn
    lifecycle
    removalPolicy }

end Node

end Converge
