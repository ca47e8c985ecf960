import Converge.Stack.Basic

/-!
# Settings from the environment

Variables of the environment that take the place of settings of a declaration. A variable that is
set counts even if it is empty.
-/

namespace Converge

/-- Variables of the environment that are set. -/
abbrev Environment := Table String

namespace Stack

def nameVariable : String := "STACKPLAN_PROJECT_NAME"

def environmentVariable : String := "STACKPLAN_PROJECT_ENVIRONMENT"

def bucketVariable : String := "STACKPLAN_STATE_BUCKET"

def prefixVariable : String := "STACKPLAN_STATE_PREFIX"

def endpointVariable : String := "STACKPLAN_PROVIDER_ENDPOINT"

/-- The variables that take the place of settings. -/
def overriding : List String :=
  [nameVariable, environmentVariable, bucketVariable, prefixVariable, endpointVariable]

/-- The stack with settings taken from the environment. -/
def withEnvironment (s : Stack) (environment : Environment) : Stack :=
  { s with
    project := {
      name := (environment.get? nameVariable).getD s.project.name
      environment := (environment.get? environmentVariable).getD s.project.environment }
    state := { s.state with
      bucket := (environment.get? bucketVariable).or s.state.bucket
      keyPrefix := (environment.get? prefixVariable).or s.state.keyPrefix }
    provider := { s.provider with
      endpoint := (environment.get? endpointVariable).or s.provider.endpoint } }

end Stack

end Converge
