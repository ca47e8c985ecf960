import Converge.Stack.Basic

/-!
# Checking a declaration

The rules that a declaration has to keep, gathered in one pass so that all violations are seen at
once. Whether ids that are waited for exist, and whether resources wait for each other in a circle,
shows only when the graph is built.
-/

namespace Converge

/-- A violated rule, and where. -/
structure Finding where
  field : String
  message : String
deriving DecidableEq, Repr

namespace Finding

def text (finding : Finding) : String := s!"{finding.field}: {finding.message}"

end Finding

/-- What a check brings to light. -/
structure Findings where
  errors : List Finding := []
  warnings : List String := []
deriving DecidableEq, Repr

namespace Findings

def empty : Findings := {}

/-- The findings of one check and then those of another. -/
def append (a b : Findings) : Findings := ⟨a.errors ++ b.errors, a.warnings ++ b.warnings⟩

instance : Append Findings := ⟨append⟩

/-- The findings of several checks in order. -/
def join (parts : List Findings) : Findings := parts.foldl append empty

/-- An error where `violated` holds. -/
def errorIf (violated : Bool) (field message : String) : Findings :=
  if violated then { errors := [⟨field, message⟩] } else empty

/-- A warning where `noticed` holds. -/
def warningIf (noticed : Bool) (message : String) : Findings :=
  if noticed then { warnings := [message] } else empty

def isValid (findings : Findings) : Bool := findings.errors.isEmpty

end Findings

/-! ## Names -/

/-- Whether two hyphens stand side by side. -/
def hasDoubleHyphen : List Char → Bool
  | '-' :: '-' :: _ => true
  | _ :: rest => hasDoubleHyphen rest
  | [] => false

/-- Project names are of small letters, digits and single hyphens, begin with a letter and do not
end with a hyphen. -/
def isProjectName (name : String) : Bool :=
  match name.toList with
  | [] => false
  | first :: rest =>
    first.isLower && rest.all (fun c => c.isLower || c.isDigit || c == '-') &&
      (first :: rest).getLast? != some '-' && !hasDoubleHyphen (first :: rest)

/-- Resource ids are of letters, digits, hyphens and low lines, and begin with a letter. -/
def isResourceId (id : String) : Bool :=
  match id.toList with
  | [] => false
  | first :: rest => first.isAlpha && rest.all (fun c => c.isAlphanum || c == '-' || c == '_')

/-! ## Sections -/

namespace Project

def check (project : Project) : Findings :=
  (if project.name.isEmpty then
    Findings.errorIf true "project.name" "Project name cannot be empty"
  else
    Findings.errorIf (!isProjectName project.name) "project.name"
      s!"Project name '{project.name}' is invalid. Must be lowercase alphanumeric with hyphens.") ++
  Findings.errorIf project.environment.isEmpty "project.environment" "Environment cannot be empty"

end Project

namespace StateSettings

def check (settings : StateSettings) : Findings :=
  Findings.errorIf (settings.backend = .s3 && (settings.bucket.getD "").isEmpty) "state.bucket"
    "S3 bucket name is required when using S3 backend"

end StateSettings

namespace ApplySettings

/-- Number of parallel calls above which a check warns. -/
def calmConcurrency : Nat := 32

def check (settings : ApplySettings) : Findings :=
  Findings.errorIf (settings.concurrency = 0) "apply.concurrency" "Concurrency must be at least 1" ++
  Findings.errorIf (settings.maxAttempts = 0) "apply.max_attempts"
    "At least one attempt is required" ++
  Findings.errorIf (settings.maxBackoffMs < settings.initialBackoffMs) "apply.initial_backoff_ms"
    "Initial backoff cannot exceed max_backoff_ms" ++
  Findings.errorIf
    (!((Double.ofNat 0).le settings.jitter && settings.jitter.le (Double.ofNat 1))) "apply.jitter"
    "Jitter must be between 0.0 and 1.0" ++
  Findings.warningIf (calmConcurrency < settings.concurrency)
    s!"apply.concurrency: {settings.concurrency} parallel provider calls may trigger throttling"

end ApplySettings

/-! ## Exposures -/

namespace HealthCheck

/-- Whether the healthy status codes are a range of codes that exist. -/
def hasStatusRange (check : HealthCheck) : Bool :=
  match check.statusRange with
  | some (low, high) => 100 ≤ low && low ≤ 599 && 100 ≤ high && high ≤ 599 && low ≤ high
  | none => false

def check (check : HealthCheck) (field : String) : Findings :=
  Findings.errorIf (check.path.toList.head? != some '/') s!"{field}.health_check.path"
    s!"Health check path must start with '/': {check.path}" ++
  Findings.errorIf (!check.hasStatusRange) s!"{field}.health_check.healthy_status_codes"
    s!"Invalid status code range: {check.healthyStatusCodes}" ++
  Findings.errorIf (check.timeoutSecs = 0 || check.intervalSecs ≤ check.timeoutSecs)
    s!"{field}.health_check.timeout_secs"
    "Health check timeout must be positive and shorter than the interval"

end HealthCheck

/-- Ids that a list of derived ids takes although they are taken already, with all ids taken
afterwards. -/
def checkDerivedIds (field : String) (taken : List String) :
    List String → Findings × List String
  | [] => (.empty, taken)
  | id :: rest =>
    let found := Findings.errorIf (taken.contains id) field
      s!"Derived resource id '{id}' collides with another resource"
    let (more, taken) := checkDerivedIds field (id :: taken) rest
    (found ++ more, taken)

namespace Exposure

/-- Checks the ports from index `j` on. A port without a number of its own is not looked at
further. -/
def checkPorts (field : String) (j : Nat) (numbers : List Nat) (taken : List String) :
    List Port → Findings × List String
  | [] => (.empty, taken)
  | port :: rest =>
    let here := s!"{field}.expose.ports[{j}]"
    if port.number = 0 then
      let (more, taken) := checkPorts field (j + 1) numbers taken rest
      (Findings.errorIf true here "Port must be between 1 and 65535" ++ more, taken)
    else if numbers.contains port.number then
      let (more, taken) := checkPorts field (j + 1) numbers taken rest
      (Findings.errorIf true here s!"Duplicate port {port.number}" ++ more, taken)
    else
      let (collisions, taken) := checkDerivedIds here taken (PortWiring.idsOf port.number)
      let health := match port.healthCheck with
        | some check => check.check here
        | none => .empty
      let (more, taken) := checkPorts field (j + 1) (port.number :: numbers) taken rest
      (collisions ++ health ++ more, taken)

/-- Checks that an exposure's field names a resource of the wanted kind. Of two declarations of
one id the later counts. -/
def checkPeer (declarations : List Declaration) (field id : String) (kind : Kind) : Findings :=
  match declarations.reverse.find? (·.id == id) with
  | none => Findings.errorIf true field s!"Unknown resource '{id}'"
  | some d =>
    Findings.errorIf (d.kind != kind) field s!"'{id}' is a {d.kind.name}, expected a {kind.name}"

def check (exposure : Exposure) (declarations : List Declaration) (service field : String)
    (taken : List String) : Findings × List String :=
  let peers :=
    checkPeer declarations s!"{field}.expose.network" exposure.network .network ++
    checkPeer declarations s!"{field}.expose.security_group" exposure.securityGroup
      .securityGroup ++
    checkPeer declarations s!"{field}.expose.load_balancer" exposure.loadBalancer .loadBalancer
  let rest :=
    Findings.errorIf exposure.container.isEmpty s!"{field}.expose.container"
      "Container name cannot be empty" ++
    Findings.warningIf exposure.ports.isEmpty
      s!"{field}.expose: service '{service}' exposes no ports"
  let (ports, taken) := checkPorts field 0 [] taken exposure.ports
  (peers ++ rest ++ ports, taken)

end Exposure

/-! ## Resources -/

namespace Declaration

/-- Checks the declaration at index `i`; `taken` are the ids of those before it. -/
def check (d : Declaration) (declarations : List Declaration) (i : Nat) (taken : List String) :
    Findings × List String :=
  let field := s!"resources[{i}]"
  let own :=
    Findings.errorIf (!isResourceId d.id) s!"{field}.id"
      s!"Resource id '{d.id}' is invalid. Must start with a letter and contain only letters, digits, '-' or '_'." ++
    Findings.errorIf (taken.contains d.id) s!"{field}.id" s!"Duplicate resource id: {d.id}" ++
    .join (d.dependsOn.map fun dependency =>
      Findings.errorIf (dependency == d.id) s!"{field}.depends_on"
        s!"Resource '{d.id}' depends on itself") ++
    match d.existing with
    | some existing =>
      Findings.errorIf existing.providerId.isEmpty s!"{field}.existing.provider_id"
        "Existing resources need a provider_id" ++
      Findings.errorIf d.expose.isSome s!"{field}.expose" "Existing resources cannot expose ports"
    | none => .empty
  let taken := d.id :: taken
  match d.expose with
  | none => (own, taken)
  | some exposure =>
    if d.kind = .service then
      let (found, taken) := exposure.check declarations d.id field taken
      (own ++ found, taken)
    else
      (own ++ Findings.errorIf true s!"{field}.expose"
        s!"Only services can expose ports, '{d.id}' is a {d.kind.name}", taken)

/-- Checks the declarations of a list from index `i` on. -/
def checkAll (declarations : List Declaration) (i : Nat) (taken : List String) :
    List Declaration → Findings
  | [] => .empty
  | d :: rest =>
    let (found, taken) := d.check declarations i taken
    found ++ checkAll declarations (i + 1) taken rest

end Declaration

namespace Stack

/-- All findings in a declaration. -/
def check (s : Stack) : Findings :=
  s.project.check ++ s.state.check ++ s.apply.check ++
    if s.resources.isEmpty then Findings.warningIf true "No resources declared"
    else Declaration.checkAll s.resources 0 [] s.resources

/-- The findings in a declaration that has to be valid; otherwise the first error. -/
def validate (s : Stack) : Except ConfigError Findings :=
  let findings := s.check
  match findings.errors with
  | [] => .ok findings
  | first :: _ => .error (.validation first.message (some first.field))

end Stack

end Converge
