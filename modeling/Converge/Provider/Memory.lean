import Converge.Provider.Basic
import Converge.State.Basic
import Converge.Text.Integer

/-!
# Provider in memory

A provider that keeps its resources in a table and numbers them. Calls on resources of a given name
can be made to fail, and every call is recorded.
-/

namespace Converge

/-- How calls on a name are made to fail. -/
inductive Fault where
  /-- Fails that many times more, and may be tried again. -/
  | transient (remaining : Nat)
  /-- Fails always. -/
  | permanent
deriving DecidableEq, Repr

/-- A live resource. -/
structure LiveResource where
  kind : Kind
  name : Option String
  attributes : Attributes

/-- What a recorded call was made for. -/
inductive CallKind where
  | create
  | update
  | delete
deriving DecidableEq, Repr

/-- A call of the past. -/
structure CallRecord where
  operation : CallKind
  kind : Kind
  /-- The name of the resource, or its id if it has no name. -/
  target : String
  succeeded : Bool
deriving DecidableEq, Repr

/-- The live resources of a provider in memory. -/
structure Memory where
  /-- The number that was given out last. -/
  counter : Nat := 0
  resources : Table LiveResource := .empty
  faults : Table Fault := .empty
  /-- The calls so far in order. -/
  calls : List CallRecord := []

namespace CallKind

def name : CallKind → String
  | .create => "create"
  | .update => "update"
  | .delete => "delete"

end CallKind

namespace Memory

def empty : Memory := {}

/-- The name of the provider in texts. -/
def providerName : String := "memory"

/-- The name that attributes give to a resource. -/
def nameOf (attributes : Attributes) : Option String := (attributes.get? "name").bind Json.string?

/-- The part of an id after its last hyphen. -/
def serialOf (id : String) : String :=
  String.ofList (id.toList.reverse.takeWhile (· != '-')).reverse

/-- The number at the end of an id; zero if there is none. -/
def numberOf (id : String) : Nat :=
  (Text.readUnsigned? 10 (Number.maxUnsigned 64) (serialOf id).toList).getD 0

/-- What a resource of the given attributes puts out. -/
def outputsFor (kind : Kind) (id serial : String) (attributes : Attributes) : Outputs :=
  let outputs := (attributes.insert "id" (.string id)).insert "arn"
    (.string s!"arn:stackplan:{kind.name}:{serial}")
  if kind = .loadBalancer then
    outputs.insert "dns_name" (.string s!"{id}.lb.stackplan.internal")
  else outputs

/-- Adds the resource of a record, and goes on numbering after it. -/
def addRecord (m : Memory) (r : Record) : Memory :=
  { m with
    counter := max m.counter (numberOf r.providerId)
    resources := m.resources.insert r.providerId
      { kind := r.kind, name := nameOf r.attributes, attributes := r.attributes } }

/-- A provider that holds everything a state records. -/
def ofState (s : State) : Memory := s.resources.values.foldl addRecord empty

/-- Makes calls on a name fail. -/
def inject (m : Memory) (name : String) (fault : Fault) : Memory :=
  { m with faults := m.faults.insert name fault }

def attributes? (m : Memory) (id : String) : Option Attributes :=
  (m.resources.get? id).map (·.attributes)

/-- The failure that is due for a name, and the provider with that failure used up. -/
def checkFault (m : Memory) (name : Option String) : Except ProviderError Unit × Memory :=
  match name.bind fun name => (m.faults.get? name).map (name, ·) with
  | some (name, .permanent) =>
    (.error (.permanent "injected" s!"permanent failure injected for '{name}'"), m)
  | some (name, .transient (remaining + 1)) =>
    (.error (.transient "throttled" s!"transient failure injected for '{name}'"),
      m.inject name (.transient remaining))
  | _ => (.ok (), m)

/-- Records a call. -/
def log (m : Memory) (operation : CallKind) (kind : Kind) (target : String) (succeeded : Bool) :
    Memory :=
  { m with calls := m.calls ++ [⟨operation, kind, target, succeeded⟩] }

/-- The number of numbers that can be given out, after which they begin again. -/
def counterBound : Nat := Nat.pow 2 64

def create (m : Memory) (kind : Kind) (attributes : Attributes) :
    Except ProviderError CreatedResource × Memory :=
  let name := nameOf attributes
  match m.checkFault name with
  | (.error cause, m) => (.error cause, m.log .create kind (name.getD kind.name) false)
  | (.ok (), m) =>
    let counter := (m.counter + 1) % counterBound
    let id := s!"{kind.name}-{counter}"
    let m := { m with counter, resources := m.resources.insert id { kind, name, attributes } }
    (.ok ⟨id, outputsFor kind id (toString counter) attributes⟩,
      m.log .create kind (name.getD id) true)

def update (m : Memory) (kind : Kind) (id : String) (attributes : Attributes) :
    Except ProviderError Outputs × Memory :=
  let target := (nameOf attributes).getD id
  match m.resources.get? id with
  | none =>
    (.error (.notFound s!"resource '{id}' does not exist"), m.log .update kind target false)
  | some held =>
    let name := (nameOf attributes).or held.name
    match m.checkFault name with
    | (.error cause, m) => (.error cause, m.log .update kind target false)
    | (.ok (), m) =>
      let m := { m with resources := m.resources.insert id { kind, name, attributes } }
      (.ok (outputsFor kind id (serialOf id) attributes), m.log .update kind target true)

def delete (m : Memory) (kind : Kind) (id : String) : Except ProviderError Unit × Memory :=
  match m.resources.get? id with
  | none => (.error (.notFound s!"resource '{id}' does not exist"), m.log .delete kind id false)
  | some held =>
    let target := held.name.getD id
    match m.checkFault held.name with
    | (.error cause, m) => (.error cause, m.log .delete held.kind target false)
    | (.ok (), m) =>
      let m := { m with resources := m.resources.erase id }
      (.ok (), m.log .delete held.kind target true)

/-- Answers the calls of a provider. -/
def answer : (request : Provider.Request) → StateM Memory (Provider.Answer request)
  | .create kind attributes => fun m =>
    let (result, m) := m.create kind attributes
    (.ofExcept result, m)
  | .update kind id attributes => fun m =>
    let (result, m) := m.update kind id attributes
    (.ofExcept result, m)
  | .delete kind id => fun m =>
    let (result, m) := m.delete kind id
    (.ofExcept result, m)
  | .pause _ => pure ()

end Memory

end Converge
