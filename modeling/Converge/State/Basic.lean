import Converge.Arrangement
import Converge.Instant.Text
import Converge.Resource.Node

/-!
# The state of a stack

What a stack has created and not removed, by node id, with the history of its recent applies.
Records carry the order in which they were created.
-/

namespace Converge

/-- A resource as it was last applied. -/
structure Record where
  id : String
  kind : Kind
  providerId : String
  attributes : Attributes := .empty
  outputs : Outputs := .empty
  /-- Ids of the nodes it depended on. -/
  dependencies : List String := []
  /-- Its place in the order of creation. -/
  sequence : Nat := 0
  removalPolicy : RemovalPolicy := .destroy
  createdAt : Instant
  updatedAt : Instant

/-- What an entry of the history is about. -/
inductive Operation where
  /-- Bringing the stack to what is declared. -/
  | apply
  /-- Removing the stack. -/
  | destroy
deriving DecidableEq, Repr, Inhabited

/-- An apply of the past. -/
structure HistoryEntry where
  timestamp : Instant
  operation : Operation
  configHash : String
  /-- Ids of the nodes whose steps did something. -/
  resources : List String
  success : Bool
  error : Option String := none

/-- The state of a stack. -/
structure State where
  version : String
  project : String
  environment : String
  /-- The fingerprint of the graph that was last applied in full. -/
  configHash : String
  resources : Table Record
  /-- The place in the order of creation that the next new record takes. -/
  nextSequence : Nat := 0
  lastUpdated : Instant
  /-- The latest applies, the oldest first. -/
  history : List HistoryEntry := []

namespace Record

/-- A record without attributes. -/
def new (id : String) (kind : Kind) (providerId : String) (now : Instant) : Record :=
  { id, kind, providerId, createdAt := now, updatedAt := now }

end Record

namespace State

/-- The version of the format. -/
def currentVersion : String := "1.0"

/-- How many entries of the history are kept. -/
def historyLimit : Nat := 100

/-- The state of a stack that has nothing yet. -/
def new (project environment : String) (now : Instant) : State :=
  { version := currentVersion, project, environment, configHash := "", resources := .empty,
    lastUpdated := now }

def get? (s : State) (id : String) : Option Record := s.resources.get? id

def isEmpty (s : State) : Bool := s.resources.isEmpty

/-- The number of places in the order of creation, after which they begin again. -/
def sequenceBound : Nat := Nat.pow 2 64

/-- Stores a record under its id. It keeps the place of the record that was there, or takes the
next one. -/
def setRecord (s : State) (record : Record) (now : Instant) : State :=
  match s.get? record.id with
  | some previous =>
    { s with
      resources := s.resources.insert record.id { record with sequence := previous.sequence }
      lastUpdated := now }
  | none =>
    { s with
      resources := s.resources.insert record.id { record with sequence := s.nextSequence }
      nextSequence := (s.nextSequence + 1) % sequenceBound
      lastUpdated := now }

/-- Removes the record of an id, if there is one. -/
def remove (s : State) (id : String) (now : Instant) : State :=
  if s.resources.contains id then { s with resources := s.resources.erase id, lastUpdated := now }
  else s

/-- The records in the order of their creation, of equals in the order of their ids. -/
def inCreationOrder (s : State) : List Record :=
  sortBy (fun a b => a.sequence ≤ b.sequence) s.resources.values

/-- Adds an entry to the history, which loses its oldest one when it is full. -/
def addHistory (s : State) (entry : HistoryEntry) : State :=
  let kept := if historyLimit ≤ s.history.length then s.history.drop 1 else s.history
  { s with history := kept ++ [entry] }

end State

/-! ## Documents -/

namespace Record

def toJson (r : Record) : Json :=
  .object [
    ("id", .string r.id),
    ("kind", r.kind.toJson),
    ("provider_id", .string r.providerId),
    ("attributes", .ofAttributes r.attributes),
    ("outputs", .ofAttributes r.outputs),
    ("dependencies", .ofStrings r.dependencies),
    ("sequence", .natural r.sequence),
    ("removal_policy", r.removalPolicy.toJson),
    ("created_at", r.createdAt.toJson),
    ("updated_at", r.updatedAt.toJson)]

def ofJson (value : Json) : Decode Record := do
  let fields ← value.asRecord
  let attributes ← Decode.fieldOr fields "attributes" .empty Json.asAttributes
  let createdAt ← Decode.field? fields "created_at" Instant.ofJson
  let dependencies ← Decode.fieldOr fields "dependencies" [] (Json.asList Json.asString)
  let id ← Decode.field? fields "id" Json.asString
  let kind ← Decode.field? fields "kind" Kind.ofJson
  let outputs ← Decode.fieldOr fields "outputs" .empty Json.asAttributes
  let providerId ← Decode.field? fields "provider_id" Json.asString
  let removalPolicy ← Decode.fieldOr fields "removal_policy" .destroy RemovalPolicy.ofJson
  let sequence ← Decode.fieldOr fields "sequence" 0 (Json.asUnsigned 64)
  let updatedAt ← Decode.field? fields "updated_at" Instant.ofJson
  return {
    id := ← Decode.need id
    kind := ← Decode.need kind
    providerId := ← Decode.need providerId
    attributes, outputs, dependencies, sequence, removalPolicy
    createdAt := ← Decode.need createdAt
    updatedAt := ← Decode.need updatedAt }

end Record

namespace Operation

def name : Operation → String
  | .apply => "apply"
  | .destroy => "destroy"

/-- The name in texts. -/
def display : Operation → String
  | .apply => "Apply"
  | .destroy => "Destroy"

def toJson (operation : Operation) : Json := .string operation.name

def ofJson (value : Json) : Decode Operation :=
  value.asEnum [("apply", .apply), ("destroy", .destroy)]

end Operation

namespace HistoryEntry

def toJson (entry : HistoryEntry) : Json :=
  .object [
    ("timestamp", entry.timestamp.toJson),
    ("operation", entry.operation.toJson),
    ("config_hash", .string entry.configHash),
    ("resources", .ofStrings entry.resources),
    ("success", .bool entry.success),
    ("error", .ofOption .string entry.error)]

def ofJson (value : Json) : Decode HistoryEntry := do
  let fields ← value.asRecord
  let configHash ← Decode.field? fields "config_hash" Json.asString
  let error ← Decode.optional fields "error" Json.asString
  let operation ← Decode.field? fields "operation" Operation.ofJson
  let resources ← Decode.field? fields "resources" (Json.asList Json.asString)
  let success ← Decode.field? fields "success" Json.asBool
  let timestamp ← Decode.field? fields "timestamp" Instant.ofJson
  return {
    timestamp := ← Decode.need timestamp
    operation := ← Decode.need operation
    configHash := ← Decode.need configHash
    resources := ← Decode.need resources
    success := ← Decode.need success
    error }

end HistoryEntry

namespace State

def toJson (s : State) : Json :=
  .object [
    ("version", .string s.version),
    ("project", .string s.project),
    ("environment", .string s.environment),
    ("config_hash", .string s.configHash),
    ("resources", .ofTable Record.toJson s.resources),
    ("next_sequence", .natural s.nextSequence),
    ("last_updated", s.lastUpdated.toJson),
    ("history", .array (s.history.map HistoryEntry.toJson))]

def ofJson (value : Json) : Decode State := do
  let fields ← value.asRecord
  let configHash ← Decode.field? fields "config_hash" Json.asString
  let environment ← Decode.field? fields "environment" Json.asString
  let history ← Decode.fieldOr fields "history" [] (Json.asList HistoryEntry.ofJson)
  let lastUpdated ← Decode.field? fields "last_updated" Instant.ofJson
  let nextSequence ← Decode.fieldOr fields "next_sequence" 0 (Json.asUnsigned 64)
  let project ← Decode.field? fields "project" Json.asString
  let resources ← Decode.field? fields "resources" (Json.asTable Record.ofJson)
  let version ← Decode.field? fields "version" Json.asString
  return {
    version := ← Decode.need version
    project := ← Decode.need project
    environment := ← Decode.need environment
    configHash := ← Decode.need configHash
    resources := ← Decode.need resources
    nextSequence
    lastUpdated := ← Decode.need lastUpdated
    history }

end State

end Converge
