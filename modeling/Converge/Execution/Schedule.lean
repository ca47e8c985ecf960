import Converge.Execution.Report
import Converge.Plan.Substitution
import Converge.Positions

/-!
# Schedules

The bookkeeping of an apply: which steps can be started, what came of those that were, and the
outputs they brought. A step can be started when everything it waits for has succeeded. When a step
fails, everything that waits for it, directly or not, is rolled back.
-/

namespace Converge

/-- The bookkeeping of an apply. -/
structure Schedule where
  steps : List Step
  /-- For every step, how many of the steps it waits for have not succeeded yet; a step named twice
  counts twice. -/
  waiting : List Nat
  /-- For every step, the steps that wait for it, once for each time they name it. -/
  dependents : List (List Nat)
  /-- The steps that can be started, increasing. -/
  ready : List Nat
  /-- What has come of every step so far. -/
  outcomes : List Outcome
  outputs : OutputTable

namespace Schedule

/-- The steps that wait for the step at `i`. -/
def waitingFor (steps : List Step) (i : Nat) : List Nat :=
  steps.flatMap fun step => (step.dependsOn.filter (· = i)).map fun _ => step.index

/-- Nothing has been started, and ready is what waits for nothing. -/
def start (plan : Plan) : Schedule where
  steps := plan.steps
  waiting := plan.steps.map (·.dependsOn.length)
  dependents := (List.range plan.steps.length).map (waitingFor plan.steps)
  ready := (List.range plan.steps.length).filter fun i =>
    ((plan.steps[i]?.map (·.dependsOn.isEmpty)).getD false)
  outcomes := plan.steps.map Outcome.pending
  outputs := .empty

/-- The steps that wait for the step at `i`. -/
def dependentsAt (s : Schedule) (i : Nat) : List Nat := s.dependents.getD i []

/-- How far the step at `i` has come. -/
def statusAt? (s : Schedule) (i : Nat) : Option Status := s.outcomes[i]?.map (·.status)

/-- Takes the first step that can be started. -/
def takeReady (s : Schedule) : Option (Nat × Schedule) :=
  match s.ready with
  | [] => none
  | i :: ready => some (i, { s with ready })

/-- Substitutes recorded outputs in deferred attributes, and adds them to those that are resolved.
The error names the first reference without an output. -/
def prepareAttributes (outputs : OutputTable) :
    List (String × AttributeValue) → Attributes → Except String Attributes
  | [], attributes => .ok attributes
  | (name, value) :: rest, attributes =>
    match outputs.resolve value with
    | .error target => .error s!"unresolved reference '{target.render}' for attribute '{name}'"
    | .ok resolved => prepareAttributes outputs rest (attributes.insert name resolved)

/-- The attributes of a step with all that has become known by now. -/
def prepare (s : Schedule) (step : Step) : Except String Attributes :=
  prepareAttributes s.outputs step.deferred.entries step.resolved

/-- The step at `i` is under way. -/
def markStarted (s : Schedule) (i : Nat) : Schedule :=
  { s with outcomes := s.outcomes.modify i fun outcome => { outcome with status := .inProgress } }

/-- One of the steps that the step at `i` waits for has succeeded. -/
def release (s : Schedule) (i : Nat) : Schedule :=
  let left := s.waiting.getD i 0 - 1
  { s with
    waiting := s.waiting.set i left
    ready := if left = 0 ∧ s.statusAt? i = some .pending then Positions.insert i s.ready
      else s.ready }

/-- Rolls a step back, because `cause` failed. -/
def rollBack (s : Schedule) (cause : String) (i : Nat) : Schedule :=
  { s with
    outcomes := s.outcomes.modify i fun outcome =>
      { outcome with status := .rolledBack, error := some s!"dependency '{cause}' failed" }
    ready := s.ready.filter (· != i) }

/-- Works off a queue of steps: each that is pending is rolled back and queues its dependents. -/
def rollBackQueue (cause : String) : (fuel : Nat) → List Nat → Schedule → Schedule
  | 0, _, s => s
  | _ + 1, [], s => s
  | fuel + 1, i :: queue, s =>
    if s.statusAt? i = some .pending then
      rollBackQueue cause fuel (queue ++ s.dependentsAt i) (s.rollBack cause i)
    else rollBackQueue cause fuel queue s

/-- Rolls back everything that waits for the step at `i`, directly or not. Every step queues its
dependents once, so the queue is worked off after as many steps as there are waits at most, and
those of the start. -/
def rollBackDependents (s : Schedule) (cause : String) (i : Nat) : Schedule :=
  let queue := s.dependentsAt i
  rollBackQueue cause (s.dependents.foldl (fun n waiting => n + waiting.length) (queue.length + 1)) queue s

/-- Records what came of a step. -/
def finish (s : Schedule) (outcome : Outcome) : Schedule :=
  let followed :=
    if outcome.status = .succeeded then
      let outputs :=
        if outcome.action = .delete then s.outputs
        else s.outputs.record outcome.nodeId outcome.outputs
      (s.dependentsAt outcome.index).foldl release { s with outputs }
    else s.rollBackDependents outcome.nodeId outcome.index
  { followed with outcomes := followed.outcomes.set outcome.index outcome }

end Schedule

end Converge
