import Converge.Json.Decode

/-!
# Kinds of resources

The catalogue of resource kinds: the name of each in documents and texts, the attributes that a
live resource of that kind cannot change, and whether it can be changed in place at all.
-/

namespace Converge

/-- What a resource is. -/
inductive Kind where
  | network
  | securityGroup
  | ingressRule
  | cluster
  | imageSource
  | logSink
  | taskDefinition
  | service
  | loadBalancer
  | targetGroup
  | listener
  | hostedZone
  | dnsRecord
deriving DecidableEq, Repr, Inhabited

namespace Kind

/-- Every kind, in catalogue order. -/
def all : List Kind :=
  [.network, .securityGroup, .ingressRule, .cluster, .imageSource, .logSink, .taskDefinition,
   .service, .loadBalancer, .targetGroup, .listener, .hostedZone, .dnsRecord]

theorem mem_all (kind : Kind) : kind ∈ all := by cases kind <;> decide

/-- The name of a kind. -/
def name : Kind → String
  | .network => "network"
  | .securityGroup => "security_group"
  | .ingressRule => "ingress_rule"
  | .cluster => "cluster"
  | .imageSource => "image_source"
  | .logSink => "log_sink"
  | .taskDefinition => "task_definition"
  | .service => "service"
  | .loadBalancer => "load_balancer"
  | .targetGroup => "target_group"
  | .listener => "listener"
  | .hostedZone => "hosted_zone"
  | .dnsRecord => "dns_record"

/-- The kind of a given name. -/
def ofName? (name : String) : Option Kind := all.find? (·.name == name)

theorem ofName?_name (kind : Kind) : ofName? kind.name = some kind := by cases kind <;> decide

/-- The place of a kind in the catalogue. -/
def position (kind : Kind) : Nat := all.idxOf kind

/-- The attributes whose change forces a replacement. -/
def immutable : Kind → List String
  | .network => ["cidr_block"]
  | .securityGroup => ["network", "description"]
  | .ingressRule => ["security_group", "protocol", "from_port", "to_port", "source"]
  | .cluster => ["name"]
  | .imageSource => ["repository"]
  | .logSink => ["name"]
  | .taskDefinition => ["family"]
  | .service => ["cluster", "name"]
  | .loadBalancer => ["network", "scheme", "type"]
  | .targetGroup => ["network", "port", "protocol", "target_type"]
  | .listener => ["load_balancer", "port"]
  | .hostedZone => ["domain"]
  | .dnsRecord => ["zone", "record_name", "record_type"]

/-- Whether a change of the attribute forces a replacement. -/
def isImmutable (kind : Kind) (name : String) : Bool := kind.immutable.contains name

/-- Whether a live resource of this kind can be changed in place at all. -/
def updatesInPlace : Kind → Bool
  | .ingressRule => false
  | _ => true

def toJson (kind : Kind) : Json := .string kind.name

def ofJson (value : Json) : Decode Kind := do
  match ofName? (← value.asName) with
  | some kind => return kind
  | none => .error .mismatch

end Kind

end Converge
