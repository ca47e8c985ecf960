import Converge.Plan.Basic

/-!
# Patches

What has to change for a recorded resource to become what is declared: every attribute whose
wanted value differs from the recorded one or shows only later, in the order of their names.
-/

namespace Converge

/-- The changes that a resource needs. -/
structure Patch where
  changes : List Change

/-- What a patch amounts to. -/
inductive Patch.Extent where
  | unchanged
  | update
  | replace
deriving DecidableEq, Repr

namespace Patch

namespace Extent

def text : Extent → String
  | .unchanged => "no change"
  | .update => "update"
  | .replace => "replace"

end Extent

/-- The names of three sets of attributes, sorted. -/
def names (resolved : Attributes) (deferred : Declared) (prior : Attributes) : List String :=
  sortedNames (resolved.names ++ deferred.names ++ prior.names)

/-- Whether two values that may be absent are the same. -/
def sameValue : Option Json → Option Json → Bool
  | some a, some b => a.agrees b
  | _, _ => false

/-- The change of one attribute, if there is one. -/
def change? (kind : Kind) (resolved : Attributes) (deferred : Declared) (prior : Attributes)
    (name : String) : Option Change :=
  let old := prior.get? name
  let new := resolved.get? name
  let forcesReplacement := kind.isImmutable name || !kind.updatesInPlace
  if deferred.contains name then
    some { name, old, new := none, deferred := true, forcesReplacement }
  else if sameValue new old then none
  else some { name, old, new, forcesReplacement }

/-- The patch from recorded attributes to wanted ones. -/
def between (kind : Kind) (resolved : Attributes) (deferred : Declared) (prior : Attributes) :
    Patch :=
  ⟨(names resolved deferred prior).filterMap (change? kind resolved deferred prior)⟩

/-- The first attribute whose change forces a replacement. -/
def trigger? (patch : Patch) : Option String :=
  (patch.changes.find? (·.forcesReplacement)).map (·.name)

def extent (patch : Patch) : Extent :=
  if patch.trigger?.isSome then .replace
  else if patch.changes.isEmpty then .unchanged
  else .update

end Patch

end Converge
