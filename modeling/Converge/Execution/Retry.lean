import Converge.Execution.Report
import Converge.Provider.Basic
import Converge.Stack.Settings

/-!
# Retries

A worker carries out one step. Failures that may pass are tried again after a delay that doubles
with every attempt up to a bound, until the attempts are used up. A resource that is already gone
counts as deleted.
-/

namespace Converge

/-- How often and after which delays a step is tried. -/
structure RetryPolicy where
  /-- How often a step is tried; at least once. -/
  maxAttempts : Nat
  /-- Milliseconds to wait after the first attempt. -/
  initialMs : Nat
  /-- The most milliseconds to wait. -/
  maxMs : Nat
  jitter : Double
deriving DecidableEq

namespace RetryPolicy

def ofSettings (settings : ApplySettings) : RetryPolicy where
  maxAttempts := max settings.maxAttempts 1
  initialMs := settings.initialBackoffMs
  maxMs := settings.maxBackoffMs
  jitter := settings.jitter

/-- How often the delay doubles at most. -/
def maxDoublings : Nat := 20

/-- The nanoseconds of a millisecond. -/
def nanosPerMs : Nat := 1000000

/-- The most nanoseconds that a span of time lasts: its whole seconds fit in 64 bits. -/
def longestSpan : Nat := Nat.pow 2 64 * 1000000000 - 1

/-- The milliseconds to wait after the attempt of a given number, counted from one, before chance
adds its share. A span that would last longer than any other lasts as long as the longest. -/
def delayAfter (policy : RetryPolicy) (attempt : Nat) : Nat :=
  let doublings := min (attempt - 1) maxDoublings
  let doubled := min (policy.initialMs * nanosPerMs * Nat.pow 2 doublings) longestSpan
  min doubled (policy.maxMs * nanosPerMs) / nanosPerMs

/-- Whether chance adds a share to the delay. -/
def hasJitter (policy : RetryPolicy) : Bool := !policy.jitter.le (Double.ofNat 0)

end RetryPolicy

/-- A step under way. -/
structure Worker where
  step : Step
  /-- The attributes that the provider is given. -/
  attributes : Attributes
  /-- Number of calls that have ended. -/
  attempts : Nat := 0

/-- What a worker does after a call. -/
inductive Progress where
  | finished (outcome : Outcome)
  /-- It calls again after a delay in milliseconds. -/
  | retry (worker : Worker) (delay : Nat)
  | lost

namespace Worker

/-- The outcome of a step that failed. -/
def failure (w : Worker) (attempts : Nat) (cause : String) : Outcome :=
  { Outcome.pending w.step with status := .failed, attempts, error := some cause }

/-- The outcome of a step that succeeded. -/
def success (w : Worker) (attempts : Nat) (providerId : Option String) (outputs : Outputs) :
    Outcome :=
  { Outcome.pending w.step with
    status := .succeeded, attempts, providerId, outputs, applied := w.attributes }

/-- What the worker does when its call has ended with the given reply. -/
def afterCall (policy : RetryPolicy) (w : Worker) (reply : Reply (Option String × Outputs)) :
    Progress :=
  let attempts := w.attempts + 1
  match reply with
  | .ok (providerId, outputs) => .finished (w.success attempts providerId outputs)
  | .failed cause =>
    if cause.retryable && attempts < policy.maxAttempts then
      .retry { w with attempts } (policy.delayAfter attempts)
    else .finished (w.failure attempts cause.text)
  | .crashed => .lost

/-- The failure of a step that needs a provider id and has none. -/
def missingId (step : Step) : ProviderError :=
  .permanent "missing_id" s!"no provider id recorded for '{step.nodeId}'"

/-- Whether the worker can call the provider: a step that changes a live resource has to know its
provider id. -/
def canCall (w : Worker) : Bool :=
  match w.step.action with
  | .update | .delete => w.step.providerId.isSome
  | .create | .noop => true

/-- What a reply to a deletion means: a resource that is already gone counts as deleted. -/
def afterDelete (id : String) : Reply Unit → Reply (Option String × Outputs)
  | .ok () => .ok (some id, .empty)
  | .failed cause => if cause.isNotFound then .ok (some id, .empty) else .failed cause
  | .crashed => .crashed

/-- Makes the provider call of the step. -/
def call (w : Worker) : Program Provider.calls (Reply (Option String × Outputs)) := do
  let step := w.step
  match step.action, step.providerId with
  | .create, _ =>
    let reply ← Provider.create step.kind w.attributes
    return reply.map fun created => (some created.providerId, created.outputs)
  | .update, some id =>
    let reply ← Provider.update step.kind id w.attributes
    return reply.map fun fresh => (some id, step.outputs.merge fresh)
  | .delete, some id =>
    let reply ← Provider.delete step.kind id
    return afterDelete id reply
  | .update, none | .delete, none => return .failed (missingId step)
  | .noop, providerId => return .ok (providerId, step.outputs)

end Worker

end Converge
