import Converge.Stack.Basic
import Converge.Yaml.Schema

/-!
# Declarations in YAML

The schema of a declaration, and reading a stack from its text. A JSON text is read the same way,
being YAML.
-/

namespace Converge

open Yaml (Schema)

namespace Project

def schema : Schema := .record [("name", .text), ("environment", .text)]

end Project

namespace StateSettings

def schema : Schema := .record [
  ("backend", .name),
  ("bucket", .optional .text),
  ("prefix", .optional .text),
  ("region", .optional .text),
  ("path", .optional .text)]

end StateSettings

namespace ProviderSettings

def schema : Schema := .record [("endpoint", .optional .text), ("timeout_secs", .natural)]

end ProviderSettings

namespace ApplySettings

def schema : Schema := .record [
  ("concurrency", .natural),
  ("max_attempts", .natural),
  ("initial_backoff_ms", .natural),
  ("max_backoff_ms", .natural),
  ("jitter", .double)]

end ApplySettings

namespace ExistingResource

def schema : Schema := .record [("provider_id", .text), ("outputs", .table .value)]

end ExistingResource

namespace Exposure

def schema : Schema := .record [
  ("container", .text),
  ("network", .text),
  ("security_group", .text),
  ("load_balancer", .text),
  ("ports", .list .content)]

end Exposure

namespace Declaration

def schema : Schema := .record [
  ("id", .text),
  ("kind", .name),
  ("attributes", .table .value),
  ("depends_on", .list .text),
  ("existing", .optional ExistingResource.schema),
  ("removal_policy", .name),
  ("expose", .optional Exposure.schema)]

end Declaration

namespace Stack

def schema : Schema := .record [
  ("project", Project.schema),
  ("state", StateSettings.schema),
  ("provider", ProviderSettings.schema),
  ("apply", ApplySettings.schema),
  ("resources", .list Declaration.schema)]

/-- The stack that a text declares. -/
def ofYaml (text : String) : Except ConfigError Stack :=
  let failure (cause : String) : ConfigError := .parse s!"YAML parse error: {cause}"
  match schema.read text with
  | .error fault => .error (failure fault.message)
  | .ok value =>
    match ofJson value with
    | .ok stack => .ok stack
    | .error cause => .error (failure (cause.message?.getD Yaml.Fault.value.message))

end Stack

end Converge
