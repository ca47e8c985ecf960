import Converge.Graph.Build
import Converge.Plan.Synthesis
import Converge.Reconcile.Result
import Converge.State.Fold
import Converge.State.Store

/-!
# Reconciling a stack

Bringing a stack to what is declared, or removing it, while its state is locked. The state is read,
a plan is made, the plan is carried out, and what came of it is recorded, in this order. A plan that
somebody has reviewed is carried out only if the same plan is made again.
-/

namespace Converge.Reconcile

/-- What reconciling asks for. -/
inductive Request where
  | store (request : Store.Request)
  | now
  /-- Carries out a plan. -/
  | execute (plan : Plan)

/-- What is answered. -/
abbrev Answer : Request → Type
  | .store request => Store.Answer request
  | .now => Instant
  | .execute _ => Except ApplyError Report

/-- The requests of reconciling. -/
abbrev calls : Interface := ⟨Request, Answer⟩

/-- A program that reconciles, which may fail. -/
abbrev Action (α : Type) := ExceptT Error (Program calls) α

def now : Program calls Instant := Program.request (I := calls) .now

/-- What a store answers. -/
def ofStore {α : Type} (p : Program calls (Except StateError α)) : Action α := do
  match ← (p : Program calls _) with
  | .ok value => return value
  | .error cause => throw (.state cause)

def load : Action (Option State) := ofStore (Program.request (I := calls) (.store .load))

def save (state : State) : Action Unit :=
  ofStore (Program.request (I := calls) (.store (.save state)))

def delete : Action Unit := ofStore (Program.request (I := calls) (.store .delete))

def acquire (holder : String) : Action Lock :=
  ofStore (Program.request (I := calls) (.store (.acquire holder)))

/-- Releases a lock. Failing to do so changes nothing about what has been done. -/
def release (lockId : String) : Program calls Unit := do
  let _ ← Program.request (I := calls) (.store (.release lockId))

def execute (plan : Plan) : Action Report := do
  match ← (Program.request (I := calls) (.execute plan) : Program calls _) with
  | .ok report => return report
  | .error cause => throw (.apply cause)

/-- A value that may be a failure instead. -/
def ofExcept {α : Type} : Except Error α → Action α
  | .ok value => return value
  | .error cause => throw cause

/-! ## Without a lock -/

/-- The plan that brings a stack to what is declared. -/
def plan (stack : Stack) : Action Plan := do
  let graph ← ofExcept (Graph.ofStack stack)
  let prior ← load
  ofExcept (Plan.synthesize graph prior (← now))

/-- How far a stack is from what is declared. -/
def drift (stack : Stack) : Action Drift := do
  let graph ← ofExcept (Graph.ofStack stack)
  let prior ← load
  let plan ← ofExcept (Plan.synthesize graph prior (← now))
  return .ofPlan plan graph.size ((prior.map (·.resources.size)).getD 0)

/-! ## With a lock -/

/-- The plan of an operation on a recorded stack. -/
def planFor (stack : Stack) (operation : Operation) (prior : Option State) (now : Instant) :
    Except Error Plan :=
  match operation, prior with
  | .apply, _ => do Plan.synthesize (← Graph.ofStack stack) prior now
  | .destroy, some state => Plan.synthesizeDestroy state now
  | .destroy, none => .ok (Plan.nothing now)

/-- Whether two plans bring about the same graph by the same actions on the same nodes. -/
def sameSteps (a b : Plan) : Bool :=
  let actions (plan : Plan) := plan.steps.map fun step => (step.nodeId, step.action)
  a.configHash = b.configHash && actions a = actions b

/-- Refuses a plan that is not the reviewed one. -/
def checkReviewed (reviewed : Option Plan) (plan : Plan) : Except Error Unit :=
  match reviewed with
  | some reviewed =>
    if sameSteps reviewed plan then .ok ()
    else .error (.apply (.aborted "state changed since the plan was reviewed, plan again"))
  | none => .ok ()

/-- Records what came of a plan. Of a stack that has been removed nothing is kept. -/
def record (state : State) (operation : Operation) (report : Report) : Action Unit :=
  if operation = .destroy && report.isSuccess && state.isEmpty then delete else save state

/-- Carries out a plan if there is anything to do, and records what came of it. -/
def carryOut (stack : Stack) (operation : Operation) (prior : Option State) (plan : Plan) :
    Action Reconciliation := do
  if plan.isConverged then return .converged plan
  let report ← execute plan
  let now ← now
  let state := prior.getD (State.new stack.project.name stack.project.environment now)
  record (state.applyReport plan report operation now) operation report
  return .ofReport plan report

/-- Makes the plan of an operation and carries it out, unless another one has been reviewed. -/
def run (stack : Stack) (reviewed : Option Plan) (operation : Operation) :
    Action Reconciliation := do
  let prior ← load
  let plan ← ofExcept (planFor stack operation prior (← now))
  ofExcept (checkReviewed reviewed plan)
  carryOut stack operation prior plan

/-- Runs an operation under a lock, which is released whatever comes of it. -/
def locked (stack : Stack) (holder : String) (reviewed : Option Plan) (operation : Operation) :
    Program calls (Except Error Reconciliation) := do
  match ← (acquire holder).run with
  | .error cause => return .error cause
  | .ok lock =>
    let result ← (run stack reviewed operation).run
    release lock.lockId
    return result

/-- Brings a stack to what is declared, by the reviewed plan if there is one. -/
def apply (stack : Stack) (holder : String) (reviewed : Option Plan) :
    Program calls (Except Error Reconciliation) := locked stack holder reviewed .apply

/-- Removes a stack. -/
def destroy (stack : Stack) (holder : String) : Program calls (Except Error Reconciliation) :=
  locked stack holder none .destroy

end Converge.Reconcile
