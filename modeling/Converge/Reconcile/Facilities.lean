import Converge.Execution.Run
import Converge.Provider.Memory
import Converge.Provider.Remote
import Converge.Reconcile.Basic
import Converge.State.Location

/-!
# Facilities

What stands behind reconciling on a host: where the state is kept, and the provider that holds the
resources. The provider is a service, or one in memory for a rehearsal.
-/

namespace Converge

namespace Reconcile

/-- Answers requests by the state at a location and a service. -/
def answerRemote (settings : RunSettings) (location : Location) (remote : Remote) :
    (request : Request) → Program Host.calls (Answer request)
  | .store request => location.store request
  | .now => Host.now
  | .execute plan => do
    let (result, _) ← (Run.apply settings plan).interpret remote.answer
    return result

/-- Answers requests by the state at a location and a provider in memory. -/
def answerMemory (settings : RunSettings) (location : Location) :
    (request : Request) → StateT Memory (Program Host.calls) (Answer request)
  | .store request => fun memory => do return (← location.store request, memory)
  | .now => fun memory => do return (← Host.now, memory)
  | .execute plan => fun memory =>
    let ((result, _), memory) := (Run.apply settings plan).interpret Memory.answer memory
    return (result, memory)

end Reconcile

/-- Who holds the resources. -/
inductive Supplier where
  | remote (service : Remote)
  | memory (held : Memory)

/-- Where state is kept, and who holds the resources. -/
structure Facilities where
  location : Location
  supplier : Supplier

namespace Facilities

/-- Facilities for what only looks at the state. -/
def readOnly (location : Location) : Facilities := ⟨location, .memory .empty⟩

/-- Runs a program that reconciles. -/
def run {α : Type} (f : Facilities) (settings : RunSettings) (p : Program Reconcile.calls α) :
    Program Host.calls α :=
  match f.supplier with
  | .remote service => p.interpret (Reconcile.answerRemote settings f.location service)
  | .memory held => Prod.fst <$> (p.interpret (Reconcile.answerMemory settings f.location)).run held

end Facilities

end Converge
