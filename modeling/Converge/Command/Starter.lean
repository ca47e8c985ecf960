import Converge.Command.Task
import Converge.Command.Workspace
import Converge.Host.Path

/-!
# Starting a stack

The files that a new stack starts from: a declaration to be changed, an environment file to be
filled in, and rules that keep secrets and states out of a repository.
-/

namespace Converge.Starter

/-- The declaration that a new stack starts from. -/
def declaration : String := "# stackplan stack declaration
#
# Resources are listed in declaration order. Reference another resource's
# output with `\x7b ref: \"<id>.<output>\" \x7d`; stackplan orders the graph from
# those references and from `depends_on`.

project:
  name: stream-stack
  environment: dev

state:
  backend: local
  # backend: s3
  # bucket: my-stackplan-state
  # prefix: stacks
  # region: us-east-1

provider:
  # Base URL of the provider service. Not needed for `apply --simulate`.
  endpoint: http://localhost:8700
  timeout_secs: 30

apply:
  concurrency: 4
  max_attempts: 5
  initial_backoff_ms: 500
  max_backoff_ms: 30000
  jitter: 0.2

resources:
  # Looked up, never created or deleted.
  - id: StreamVpc
    kind: network
    existing:
      provider_id: vpc-0a1b2c3d
      outputs:
        id: vpc-0a1b2c3d
        cidr_block: 10.0.0.0/16

  - id: StreamImages
    kind: image_source
    existing:
      provider_id: stream-server
      outputs:
        uri: registry.example.com/stream-server

  - id: StreamSecurityGroup
    kind: security_group
    attributes:
      network: \x7b ref: \"StreamVpc.id\" \x7d
      description: Stream server ingress

  - id: StreamCluster
    kind: cluster
    attributes:
      name: stream-cluster
      network: \x7b ref: \"StreamVpc.id\" \x7d

  - id: StreamLogs
    kind: log_sink
    removal_policy: retain
    attributes:
      name: /stream/server
      retention_days: 7

  - id: StreamTask
    kind: task_definition
    attributes:
      family: stream-server
      cpu: 512
      memory: 1024
      image: \x7b ref: \"StreamImages.uri\" \x7d
      log_sink: \x7b ref: \"StreamLogs.name\" \x7d

  - id: StreamLoadBalancer
    kind: load_balancer
    attributes:
      name: stream-lb
      scheme: internet-facing
      network: \x7b ref: \"StreamVpc.id\" \x7d
      security_group: \x7b ref: \"StreamSecurityGroup.id\" \x7d

  - id: StreamService
    kind: service
    attributes:
      name: stream-service
      cluster: \x7b ref: \"StreamCluster.arn\" \x7d
      task_definition: \x7b ref: \"StreamTask.arn\" \x7d
      desired_count: 1
    expose:
      container: stream-server
      network: StreamVpc
      security_group: StreamSecurityGroup
      load_balancer: StreamLoadBalancer
      ports:
        - port: 1935
          protocol: tcp
          description: RTMP
        - port: 80
          protocol: http
          description: HTTP
          health_check:
            path: /
            healthy_status_codes: \"200-399\"
"

/-- The environment file to be copied and filled in. -/
def environment : String := "# stackplan environment
# Copy to .env and fill in values.

# Bearer token sent to the provider service
STACKPLAN_PROVIDER_TOKEN=

# Optional overrides of the stack declaration
# STACKPLAN_PROJECT_NAME=stream-stack
# STACKPLAN_PROJECT_ENVIRONMENT=dev
# STACKPLAN_PROVIDER_ENDPOINT=http://localhost:8700
# STACKPLAN_STATE_BUCKET=
# STACKPLAN_STATE_PREFIX=

# AWS credentials for the S3 state backend
# AWS_ACCESS_KEY_ID=
# AWS_SECRET_ACCESS_KEY=
# AWS_REGION=us-east-1

# Log filter, overrides --verbose
# RUST_LOG=stackplan=debug
"

/-- Names that a repository must not hold, for files and as entries of a list of ignored files. -/
def ignored : List (String × String) :=
  [(Workspace.environmentFile, Workspace.environmentFile),
    (Location.defaultDirectory, Location.defaultDirectory ++ "/")]

/-- A list of ignored files. -/
def ignoreList : String := String.join (ignored.map fun (_, entry) => entry ++ "\n")

/-- What a list of ignored files lacks. A name counts wherever it stands. -/
def addition? (held : String) : Option String :=
  match ignored.filter fun (name, _) => !held.contains name with
  | [] => none
  | missing => some ("\n# stackplan\n" ++ String.join (missing.map fun (_, entry) => entry ++ "\n"))

/-- What to do next. -/
def nextSteps : List String := [
  "\nStack initialized successfully!",
  "Next steps:",
  "  1. Copy .env.example to .env and set STACKPLAN_PROVIDER_TOKEN",
  "  2. Edit stackplan.yaml with your resources",
  "  3. Run 'stackplan validate' to check the declaration",
  "  4. Run 'stackplan plan' to see what will change",
  "  5. Run 'stackplan apply --simulate' to rehearse, then 'stackplan apply'"]

/-- Writes a file anew. -/
def create (path content : String) : Task Unit := do
  Task.ofFile (Host.writeFile path content)
  Task.note s!"Created: {path}"

/-- Completes the list of ignored files at a path. -/
def completeIgnoreList (path : String) : Task Unit := do
  if ← Host.pathExists path then
    if let some addition := addition? (← Task.ofFile (Host.readFile path)) then
      Task.ofFile (Host.appendFile path addition)
      Task.note s!"Updated: {path}"
  else create path ignoreList

/-- Starts a stack in a directory. A declaration that is there is replaced only by force. -/
def install (directory : String) (force : Bool) : Task Unit := do
  let declarationPath := Path.join directory Stack.defaultFileName
  if !force && (← Host.pathExists declarationPath) then
    Task.notes [s!"Stack declaration already exists: {declarationPath}",
      "Use --force to overwrite."]
  else
    if !(← Host.pathExists directory) then Task.ofFile (Host.createDirectories directory)
    create declarationPath declaration
    create (Path.join directory ".env.example") environment
    completeIgnoreList (Path.join directory ".gitignore")
    Task.notes nextSteps

end Converge.Starter
