import Converge.Exposure.Port
import Converge.Resource.Node

/-!
# Wiring of exposed ports

How a service is reached from outside, and the three nodes that every exposed port brings: a target
group that routes to the container, a listener on the load balancer that forwards to it, and an
ingress rule that opens the port. Their ids depend on the number of the port alone.
-/

namespace Converge

/-- How a service is reached from outside. -/
structure Exposure where
  /-- The container that takes the traffic. -/
  container : String
  /-- Id of the network of the target groups. -/
  network : String
  /-- Id of the security group of the ingress rules. -/
  securityGroup : String
  /-- Id of the load balancer of the listeners. -/
  loadBalancer : String
  ports : List Port := []
deriving DecidableEq, Repr

namespace Exposure

def toJson (exposure : Exposure) : Json :=
  .object [
    ("container", .string exposure.container),
    ("network", .string exposure.network),
    ("security_group", .string exposure.securityGroup),
    ("load_balancer", .string exposure.loadBalancer),
    ("ports", .array (exposure.ports.map Port.toJson))]

def ofJson (value : Json) : Decode Exposure := do
  let fields ← value.asRecord
  let container ← Decode.field? fields "container" Json.asString
  let loadBalancer ← Decode.field? fields "load_balancer" Json.asString
  let network ← Decode.field? fields "network" Json.asString
  let ports ← Decode.fieldOr fields "ports" [] (Json.asList Port.ofJson)
  let securityGroup ← Decode.field? fields "security_group" Json.asString
  return {
    container := ← Decode.need container
    network := ← Decode.need network
    securityGroup := ← Decode.need securityGroup
    loadBalancer := ← Decode.need loadBalancer
    ports }

end Exposure

/-! ## Derived nodes -/

/-- The nodes of one exposed port. -/
structure PortWiring where
  targetGroup : Node
  listener : Node
  ingressRule : Node

namespace PortWiring

/-- Addresses from which ingress rules let traffic in. -/
def anySource : String := "0.0.0.0/0"

def targetGroupId (port : Nat) : String := s!"TargetGroup{port}"

def listenerId (port : Nat) : String := s!"Listener{port}"

def ingressRuleId (port : Nat) : String := s!"IngressRule{port}"

/-- The ids that a port of the given number brings. -/
def idsOf (port : Nat) : List String := [targetGroupId port, listenerId port, ingressRuleId port]

/-- What the target group asks of its targets. -/
def healthCheck (port : Nat) (check : HealthCheck) : AttributeValue :=
  .map [
    ("healthy_http_codes", .text check.healthyStatusCodes),
    ("interval_secs", .natural check.intervalSecs),
    ("path", .text check.path),
    ("port", .text (toString port)),
    ("protocol", .text "HTTP"),
    ("timeout_secs", .natural check.timeoutSecs)]

/-- What an ingress rule says of itself. -/
def ruleDescription (port : Port) : String :=
  if port.description.isEmpty then s!"Allow port {port.number} traffic"
  else s!"Allow {port.description} traffic"

/-- The nodes in the order in which they join a graph. -/
def nodes (wiring : PortWiring) : List Node :=
  [wiring.targetGroup, wiring.listener, wiring.ingressRule]

end PortWiring

/-- The nodes of exposed ports by their kind, each list in the order of the ports. -/
structure PortTopology where
  targetGroups : List Node := []
  listeners : List Node := []
  ingressRules : List Node := []

namespace PortTopology

/-- The topology with the nodes of one more port. -/
def push (topology : PortTopology) (wiring : PortWiring) : PortTopology where
  targetGroups := topology.targetGroups ++ [wiring.targetGroup]
  listeners := topology.listeners ++ [wiring.listener]
  ingressRules := topology.ingressRules ++ [wiring.ingressRule]

/-- The nodes, grouped by port. -/
def nodes (topology : PortTopology) : List Node :=
  ((topology.targetGroups.zip topology.listeners).zip topology.ingressRules).flatMap
    fun ((targetGroup, listener), ingressRule) =>
      PortWiring.nodes { targetGroup, listener, ingressRule }

end PortTopology

namespace Exposure

/-- The target group of a port. -/
def targetGroup (exposure : Exposure) (service : String) (port : Port) : Node where
  id := PortWiring.targetGroupId port.number
  kind := .targetGroup
  attributes := .ofList ([
    ("network", .output exposure.network "id"),
    ("port", .natural port.number),
    ("protocol", .text port.protocol.display),
    ("target", .map [
      ("container", .text exposure.container),
      ("port", .natural port.number),
      ("service", .output service "id")]),
    ("target_type", .text "ip")] ++
    port.healthCheck.toList.map fun check => ("health_check", PortWiring.healthCheck port.number check))

/-- The listener of a port, which forwards to the port's own target group. -/
def listener (exposure : Exposure) (port : Port) : Node where
  id := PortWiring.listenerId port.number
  kind := .listener
  attributes := .ofList [
    ("default_target_group", .output (PortWiring.targetGroupId port.number) "arn"),
    ("load_balancer", .output exposure.loadBalancer "arn"),
    ("port", .natural port.number),
    ("protocol", .text port.protocol.display)]

/-- The rule that lets traffic for a port in. -/
def ingressRule (exposure : Exposure) (port : Port) : Node where
  id := PortWiring.ingressRuleId port.number
  kind := .ingressRule
  attributes := .ofList [
    ("description", .text (PortWiring.ruleDescription port)),
    ("from_port", .natural port.number),
    ("protocol", .text port.protocol.transport),
    ("security_group", .output exposure.securityGroup "id"),
    ("source", .text PortWiring.anySource),
    ("to_port", .natural port.number)]

/-- The nodes of a port. -/
def wirePort (exposure : Exposure) (service : String) (port : Port) : PortWiring where
  targetGroup := exposure.targetGroup service port
  listener := exposure.listener port
  ingressRule := exposure.ingressRule port

/-- Wires the ports of a list after those of a topology, which take the numbers in `seen`. -/
def wirePorts (exposure : Exposure) (service : String) (seen : List Nat)
    (topology : PortTopology) : List Port → Except ConfigError PortTopology
  | [] => .ok topology
  | port :: rest =>
    if port.number = 0 then .error (.invalidPort s!"{service}: port 0")
    else if seen.contains port.number then .error (.duplicatePort service port.number)
    else
      exposure.wirePorts service (port.number :: seen)
        (topology.push (exposure.wirePort service port)) rest

/-- The wiring of every port in order. Zero is no port, and no port comes twice. -/
def wire (exposure : Exposure) (service : String) : Except ConfigError PortTopology :=
  exposure.wirePorts service [] {} exposure.ports

/-- The derived nodes, grouped by port. -/
def derivedNodes (exposure : Exposure) (service : String) : Except ConfigError (List Node) :=
  return (← exposure.wire service).nodes

end Exposure

end Converge
