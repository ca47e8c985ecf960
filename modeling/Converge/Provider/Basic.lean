import Converge.Error
import Converge.Program
import Converge.Resource.Node

/-!
# Providers

A provider holds live resources and creates, updates and deletes them on call. Whoever applies a
plan asks a provider by the interface below, and anything that answers it can be the provider.
-/

namespace Converge

/-- A resource as a provider has just created it. -/
structure CreatedResource where
  providerId : String
  outputs : Outputs := .empty

/-- How a call ends. -/
inductive Reply (α : Type) where
  | ok (value : α)
  | failed (cause : ProviderError)
  /-- The call did not end; whoever made it is lost. -/
  | crashed

namespace Provider

/-- What is asked of a provider. -/
inductive Request where
  | create (kind : Kind) (attributes : Attributes)
  /-- Changes a resource in place. -/
  | update (kind : Kind) (id : String) (attributes : Attributes)
  | delete (kind : Kind) (id : String)
  /-- Lets a number of milliseconds pass. -/
  | pause (milliseconds : Nat)

/-- What is answered. The outputs of a resource follow an update, and deleting one that does not
exist fails with `ProviderError.notFound`. -/
abbrev Answer : Request → Type
  | .create _ _ => Reply CreatedResource
  | .update _ _ _ => Reply Outputs
  | .delete _ _ => Reply Unit
  | .pause _ => Unit

/-- The calls of providers. -/
abbrev calls : Interface := ⟨Request, Answer⟩

def create (kind : Kind) (attributes : Attributes) : Program calls (Reply CreatedResource) :=
  Program.request (I := calls) (.create kind attributes)

def update (kind : Kind) (id : String) (attributes : Attributes) : Program calls (Reply Outputs) :=
  Program.request (I := calls) (.update kind id attributes)

def delete (kind : Kind) (id : String) : Program calls (Reply Unit) := Program.request (I := calls) (.delete kind id)

def pause (milliseconds : Nat) : Program calls Unit := Program.request (I := calls) (.pause milliseconds)

end Provider

namespace Reply

def map {α β : Type} (f : α → β) : Reply α → Reply β
  | .ok value => .ok (f value)
  | .failed cause => .failed cause
  | .crashed => .crashed

def ofExcept {α : Type} : Except ProviderError α → Reply α
  | .ok value => .ok value
  | .error cause => .failed cause

end Reply

namespace CreatedResource

def toJson (created : CreatedResource) : Json :=
  .object [
    ("provider_id", .string created.providerId),
    ("outputs", .ofAttributes created.outputs)]

def ofJson (value : Json) : Decode CreatedResource := do
  let fields ← value.asRecord
  let outputs ← Decode.fieldOr fields "outputs" .empty Json.asAttributes
  let providerId ← Decode.field? fields "provider_id" Json.asString
  return { providerId := ← Decode.need providerId, outputs }

end CreatedResource

end Converge
