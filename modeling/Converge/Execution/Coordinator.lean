import Converge.Execution.Retry
import Converge.Execution.Schedule

/-!
# Coordination

The coordinator starts steps as long as there is room, lowest index first, and takes in what comes
of them. Steps without a provider call are settled on the spot. Once it has seen that the apply is
cancelled it starts nothing more.
-/

namespace Converge

/-- An apply as its coordinator sees it. -/
structure Coordinator where
  schedule : Schedule
  /-- Number of workers under way. -/
  running : Nat := 0
  cancelled : Bool := false

namespace Coordinator

def start (plan : Plan) : Coordinator := { schedule := .start plan }

/-- Looks whether the apply has been cancelled. -/
def observe (c : Coordinator) (cancelled : Bool) : Coordinator :=
  { c with cancelled := c.cancelled || cancelled }

/-- What becomes of a step that is taken: an outcome on the spot, or a worker. -/
def dispatch (s : Schedule) (step : Step) : Outcome ⊕ Worker :=
  match s.prepare step with
  | .error cause => .inl { Outcome.pending step with status := .failed, error := some cause }
  | .ok attributes =>
    if step.callsProvider then .inr { step, attributes }
    else .inl { Outcome.pending step with
      status := .succeeded, outputs := step.outputs, applied := attributes }

/-- Takes the first step that can be started, if there is room for a worker: it is settled on the
spot, or a worker is under way for it. -/
def takeNext (limit : Nat) (c : Coordinator) : Option (Coordinator × (Outcome ⊕ Worker)) :=
  if c.cancelled || limit ≤ c.running then none
  else
    match c.schedule.takeReady with
    | none => none
    | some (i, schedule) =>
      match schedule.steps[i]? with
      | none => none
      | some step =>
        match dispatch schedule step with
        | .inl outcome => some ({ c with schedule := schedule.finish outcome }, .inl outcome)
        | .inr worker =>
          some ({ c with schedule := schedule.markStarted i, running := c.running + 1 }, .inr worker)

/-- Starts steps while there is room for workers, and gives the workers in the order in which they
start. -/
def fill (limit : Nat) : (fuel : Nat) → Coordinator → Coordinator × List Worker
  | 0, c => (c, [])
  | fuel + 1, c =>
    match c.takeNext limit with
    | none => (c, [])
    | some (c, .inl _) => fill limit fuel c
    | some (c, .inr worker) =>
      let (c, workers) := fill limit fuel c
      (c, worker :: workers)

/-- Starts all that can be started now. No step is taken twice. -/
def startReady (limit : Nat) (c : Coordinator) : Coordinator × List Worker :=
  fill limit (c.schedule.steps.length + 1) c

/-- Takes in what came of a worker. -/
def collect (c : Coordinator) (outcome : Outcome) : Coordinator :=
  { c with schedule := c.schedule.finish outcome, running := c.running - 1 }

/-- The report, when no worker is under way. -/
def report (c : Coordinator) : Report := .ofOutcomes c.schedule.outcomes c.cancelled

end Coordinator

end Converge
