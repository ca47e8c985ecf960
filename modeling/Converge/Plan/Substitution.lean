import Converge.Resource.Node

/-!
# Substitution of references

Replacing the references in a value by what they stand for: when a plan is made, where an output
may not be known yet, and when it is applied, where every output that was brought has been
recorded.
-/

namespace Converge

/-- What a plan knows of a reference. -/
inductive Lookup where
  | known (value : Json)
  /-- The output shows when the plan is applied. -/
  | deferred
  /-- No step of the plan will bring the output. -/
  | missing

/-- Whether no step will bring the output. -/
def Lookup.isMissing : Lookup → Bool
  | .missing => true
  | _ => false

/-- A value after substitution. -/
inductive Resolution where
  | resolved (value : Json)
  /-- A reference inside is deferred. -/
  | deferred
  /-- A reference inside is missing; it is the first such. -/
  | unresolved (target : Reference)

namespace AttributeValue

/-- What substitution makes of a list of items: their values if all are resolved. -/
inductive Resolutions (α : Type) where
  | resolved (values : List α)
  | deferred
  | unresolved (target : Reference)

namespace Resolutions

/-- One more item in front, whose value `f` puts into the list. -/
def cons {α : Type} (f : Json → α) (head : Resolution) (tail : Resolutions α) : Resolutions α :=
  match head, tail with
  | .unresolved target, _ => .unresolved target
  | _, .unresolved target => .unresolved target
  | .deferred, _ => .deferred
  | _, .deferred => .deferred
  | .resolved value, .resolved values => .resolved (f value :: values)

/-- The collection that a list of items makes. -/
def toResolution {α : Type} (f : List α → Json) : Resolutions α → Resolution
  | .resolved values => .resolved (f values)
  | .deferred => .deferred
  | .unresolved target => .unresolved target

end Resolutions

mutual

/-- Substitutes what `lookup` says of each reference. A missing reference wins over a deferred
one, wherever the two stand. -/
def resolveWith (lookup : Reference → Lookup) : AttributeValue → Resolution
  | .literal value => .resolved value
  | .reference target =>
    match lookup target with
    | .known value => .resolved value
    | .deferred => .deferred
    | .missing => .unresolved target
  | .list items => (resolveItems lookup items).toResolution .array
  | .map entries => (resolveEntries lookup entries).toResolution .object

def resolveItems (lookup : Reference → Lookup) : List AttributeValue → Resolutions Json
  | [] => .resolved []
  | item :: rest => .cons id (resolveWith lookup item) (resolveItems lookup rest)

def resolveEntries (lookup : Reference → Lookup) :
    List (String × AttributeValue) → Resolutions (String × Json)
  | [] => .resolved []
  | (name, value) :: rest =>
    .cons (fun v => (name, v)) (resolveWith lookup value) (resolveEntries lookup rest)

end

/-- The references that substitution asks about, in order: all of them, or those up to the first
that is missing. -/
def asked (lookup : Reference → Lookup) (value : AttributeValue) : List Reference :=
  let isFound (target : Reference) : Bool := !(lookup target).isMissing
  value.references.takeWhile isFound ++ (value.references.dropWhile isFound).take 1

end AttributeValue

/-! ## Recorded outputs -/

/-- The outputs that nodes have brought so far. -/
structure OutputTable where
  outputs : Table Outputs := .empty

namespace OutputTable

def empty : OutputTable := {}

/-- Records the outputs of a node, in place of earlier ones. -/
def record (t : OutputTable) (nodeId : String) (outputs : Outputs) : OutputTable :=
  ⟨t.outputs.insert nodeId outputs⟩

def get? (t : OutputTable) (target : Reference) : Option Json :=
  (t.outputs.get? target.nodeId).bind fun outputs => outputs.get? target.output

mutual

/-- Substitutes recorded outputs; the error is the first reference without one. -/
def resolve (t : OutputTable) : AttributeValue → Except Reference Json
  | .literal value => .ok value
  | .reference target =>
    match t.get? target with
    | some value => .ok value
    | none => .error target
  | .list items => do return .array (← t.resolveItems items)
  | .map entries => do return .object (← t.resolveEntries entries)

def resolveItems (t : OutputTable) : List AttributeValue → Except Reference (List Json)
  | [] => .ok []
  | item :: rest => do return (← t.resolve item) :: (← t.resolveItems rest)

def resolveEntries (t : OutputTable) :
    List (String × AttributeValue) → Except Reference (List (String × Json))
  | [] => .ok []
  | (name, value) :: rest => do return (name, ← t.resolve value) :: (← t.resolveEntries rest)

end

end OutputTable

end Converge
