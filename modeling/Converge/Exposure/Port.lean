import Converge.Json.Decode
import Converge.Text.Blank
import Converge.Text.Integer

/-!
# Exposed ports

A port that a service exposes, with its protocol and health check. A port is written as a bare
number, as a number and a protocol with a stroke between them, or as a record of its parts.
-/

namespace Converge

/-- What is spoken on an exposed port. -/
inductive Protocol where
  | tcp
  | udp
  | http
deriving DecidableEq, Repr, Inhabited

namespace Protocol

/-- The name in documents. -/
def name : Protocol → String
  | .tcp => "tcp"
  | .udp => "udp"
  | .http => "http"

/-- The name that load balancers know. -/
def display : Protocol → String
  | .tcp => "TCP"
  | .udp => "UDP"
  | .http => "HTTP"

/-- The protocol that firewall rules see. -/
def transport : Protocol → String
  | .udp => "udp"
  | _ => "tcp"

def all : List Protocol := [.tcp, .udp, .http]

/-- The protocol of a given name. -/
def ofName? (name : String) : Option Protocol := all.find? (·.name == name)

def toJson (protocol : Protocol) : Json := .string protocol.name

def ofJson (value : Json) : Decode Protocol :=
  value.asEnum (all.map fun protocol => (protocol.name, protocol))

end Protocol

/-- How the load balancer asks a target over HTTP whether it is well. -/
structure HealthCheck where
  path : String := "/"
  /-- The status codes of a healthy answer: one code, or two with a hyphen between them. -/
  healthyStatusCodes : String := "200-399"
  intervalSecs : Nat := 30
  timeoutSecs : Nat := 5
deriving DecidableEq, Repr

namespace HealthCheck

/-- The lowest and highest healthy status code, if they can be read. -/
def statusRange (check : HealthCheck) : Option (Nat × Nat) := do
  let codes := Text.trim check.healthyStatusCodes
  let (low, high) := (Text.splitOnce '-' codes).getD (codes, codes)
  let read (code : String) := Text.readUnsigned? 10 (Number.maxUnsigned 16) (Text.trim code).toList
  return (← read low, ← read high)

def toJson (check : HealthCheck) : Json :=
  .object [
    ("path", .string check.path),
    ("healthy_status_codes", .string check.healthyStatusCodes),
    ("interval_secs", .natural check.intervalSecs),
    ("timeout_secs", .natural check.timeoutSecs)]

def ofJson (value : Json) : Decode HealthCheck := do
  let fields ← value.asRecord
  let codes ← Decode.fieldOr fields "healthy_status_codes" "200-399" Json.asString
  let interval ← Decode.fieldOr fields "interval_secs" 30 (Json.asUnsigned 32)
  let path ← Decode.fieldOr fields "path" "/" Json.asString
  let timeout ← Decode.fieldOr fields "timeout_secs" 5 (Json.asUnsigned 32)
  return ⟨path, codes, interval, timeout⟩

end HealthCheck

/-- A port that a service exposes. -/
structure Port where
  /-- The number of the port, on the listener and in the container. -/
  number : Nat
  protocol : Protocol := .tcp
  /-- What the port is for. -/
  description : String := ""
  healthCheck : Option HealthCheck := none
deriving DecidableEq, Repr

namespace Port

/-- Reads the short form. Blanks around the parts and the case of the protocol do not count, and a
port without a protocol is a TCP port. -/
def parse (spec : String) : Except ConfigError Port :=
  let (number, protocol) := (Text.splitOnce '/' spec).getD (spec, "tcp")
  let number? := Text.readUnsigned? 10 (Number.maxUnsigned 16) (Text.trim number).toList
  let protocol? := Protocol.ofName? (Text.trim protocol).toLower
  match number?, protocol? with
  | some number, some protocol => .ok { number, protocol }
  | _, _ => .error (.invalidPort spec)

def toJson (port : Port) : Json :=
  .object ([
    ("port", .natural port.number),
    ("protocol", port.protocol.toJson),
    ("description", .string port.description)] ++
    port.healthCheck.toList.map fun check => ("health_check", check.toJson))

/-- Reads the record of a port's parts. -/
def ofRecord (fields : List (String × Json)) : Decode Port := do
  let description ← Decode.fieldOr fields "description" "" Json.asString
  let healthCheck ← Decode.optional fields "health_check" HealthCheck.ofJson
  let number ← Decode.field? fields "port" (Json.asUnsigned 16)
  let protocol ← Decode.fieldOr fields "protocol" .tcp Protocol.ofJson
  return { number := ← Decode.need number, protocol, description, healthCheck }

/-- Reads any of the three forms. -/
def ofJson : Json → Decode Port
  | .string spec =>
    match parse spec with
    | .ok port => .ok port
    | .error cause => .error (.invalid cause)
  | .object fields => ofRecord fields
  | value => do return { number := ← value.asUnsigned 16 }

end Port

end Converge
