/-!
# Causes of failure

Every way in which an operation of this library fails, as a cause with the data that explains it,
and the one wording of each cause. Causes are grouped by the part they arise in; `Error` joins the
groups.
-/

namespace Converge

/-- Failures in a declaration, or in finding or reading it. -/
inductive ConfigError where
  | fileNotFound (path : String)
  | parse (message : String)
  /-- A rule of a declaration is violated, at a field where one can be named. -/
  | validation (message : String) (field : Option String)
  | missingVariable (name : String)
  | invalidPort (spec : String)
  | duplicatePort (service : String) (port : Nat)
  | invalidReference (expression : String)
deriving DecidableEq, Repr

/-- Failures in building or ordering a graph. -/
inductive GraphError where
  | duplicateId (id : String)
  | unknownNode (id : String)
  /-- A cycle, as the walk along dependencies from a node back to it. -/
  | cycle (path : List String)
deriving DecidableEq, Repr

/-- Failures in synthesizing a plan. -/
inductive PlanError where
  /-- An attribute refers to an output that no step of the plan will bring. -/
  | unresolvedReference (nodeId name : String)
  | immutableAttributeChanged (nodeId name : String)
deriving DecidableEq, Repr

/-- What a provider answers when it refuses or fails a call. -/
structure ProviderError where
  code : String
  message : String
  /-- Whether the same call may succeed later. -/
  retryable : Bool
deriving DecidableEq, Repr

/-- Failures of the stored state. -/
inductive StateError where
  | corrupted (message : String)
  | writeFailed (message : String)
  | lockFailed (message : String)
  | lockedByOther (holder since : String)
  /-- The object store refused a request. -/
  | objectStore (message : String)
  | serialization (message : String)
  | versionMismatch (expected found : String)
deriving DecidableEq, Repr

/-- Failures of an apply as a whole. -/
inductive ApplyError where
  | aborted (reason : String)
  | workerLost (message : String)
deriving DecidableEq, Repr

/-- Any failure. -/
inductive Error where
  | config (cause : ConfigError)
  | graph (cause : GraphError)
  | plan (cause : PlanError)
  | provider (cause : ProviderError)
  | state (cause : StateError)
  | apply (cause : ApplyError)
  | io (message : String)
  | internal (message : String)
deriving DecidableEq, Repr

/-! ## Wording -/

namespace ConfigError

def message : ConfigError → String
  | .fileNotFound path => s!"Configuration file not found: {path}"
  | .parse message => s!"Failed to parse configuration: {message}"
  | .validation message _ => s!"Configuration validation failed: {message}"
  | .missingVariable name => s!"Missing environment variable: {name}"
  | .invalidPort spec => s!"Invalid port specification: {spec}"
  | .duplicatePort service port => s!"Port {port} is exposed more than once by service '{service}'"
  | .invalidReference expression =>
    s!"Invalid reference '{expression}': expected <node_id>.<output>"

end ConfigError

namespace GraphError

def message : GraphError → String
  | .duplicateId id => s!"Duplicate node id: {id}"
  | .unknownNode id => s!"Unknown node: {id}"
  | .cycle path => "Dependency cycle detected: " ++ String.intercalate " -> " path

end GraphError

namespace PlanError

def message : PlanError → String
  | .unresolvedReference nodeId name => s!"Unresolved reference in '{nodeId}.{name}'"
  | .immutableAttributeChanged nodeId name =>
    s!"Immutable attribute '{name}' of '{nodeId}' changed, resource must be replaced"

end PlanError

namespace ProviderError

/-- A failure that may pass. -/
def transient (code message : String) : ProviderError := ⟨code, message, true⟩

/-- A failure that stays. -/
def permanent (code message : String) : ProviderError := ⟨code, message, false⟩

/-- The code of the answer for a resource that does not exist. -/
def notFoundCode : String := "not_found"

def notFound (message : String) : ProviderError := permanent notFoundCode message

def isNotFound (e : ProviderError) : Bool := e.code = notFoundCode

def text (e : ProviderError) : String := s!"[{e.code}] {e.message}"

end ProviderError

namespace StateError

def message : StateError → String
  | .corrupted message => s!"State is corrupted: {message}"
  | .writeFailed message => s!"State write failed: {message}"
  | .lockFailed message => s!"Failed to acquire state lock: {message}"
  | .lockedByOther holder since =>
    s!"State is locked by another process (lock holder: {holder}, since: {since})"
  | .objectStore message => s!"S3 state backend error: {message}"
  | .serialization message => s!"State serialization error: {message}"
  | .versionMismatch expected found =>
    s!"State version mismatch: expected {expected}, found {found}"

end StateError

namespace ApplyError

def message : ApplyError → String
  | .aborted reason => s!"Apply aborted: {reason}"
  | .workerLost message => s!"Apply worker terminated abnormally: {message}"

end ApplyError

namespace Error

def message : Error → String
  | .config cause => "Configuration error: " ++ cause.message
  | .graph cause => "Graph error: " ++ cause.message
  | .plan cause => "Planning error: " ++ cause.message
  | .provider cause => "Provider error: " ++ cause.text
  | .state cause => "State error: " ++ cause.message
  | .apply cause => "Apply error: " ++ cause.message
  | .io message => "IO error: " ++ message
  | .internal message => "Internal error: " ++ message

/-- Whether trying again may help: a provider says so itself, and a lock may be free later. -/
def isRetryable : Error → Bool
  | .provider cause => cause.retryable
  | .state (.lockFailed _) => true
  | _ => false

end Error

end Converge
