import Converge.Command.Arguments
import Converge.Command.Starter
import Converge.Command.Workspace
import Converge.Console.Views

/-!
# Performing commands

What every command does: it reads the declaration and the state, asks where something cannot be
undone, and shows what came of it.
-/

namespace Converge

namespace Workspace

/-- Checks a declaration and shows every finding before it fails by the first. -/
def validate (w : Workspace) (format : Format) (warnings : Bool) : Task Unit := do
  Task.say (View.validation format w.stack w.stack.check warnings)
  w.check
  let _ ← Task.ofExcept (Graph.ofStack w.stack)

def graph (w : Workspace) (format : Format) : Task Unit := do
  let g ← Task.ofExcept (Graph.ofStack w.stack)
  Task.say (← Task.ofExcept ((View.graph format g).mapError .graph))

/-- Shows the plan, and writes it to a file to be reviewed. -/
def plan (w : Workspace) (format : Format) (detailed : Bool) (out : Option String) : Task Unit := do
  let plan ← w.reconcile (.readOnly (← w.location)) (Reconcile.plan w.stack)
  Task.say (View.plan format detailed plan)
  if let some path := out then
    Task.ofFile (Host.writeFile path plan.toJson.pretty)
    Task.note s!"Plan saved to {path}"

/-- Reads a plan that has been reviewed. -/
def readPlan (path : String) : Task Plan := do
  let text ← Task.ofFile (Host.readFile path)
  match (Json.read? text).map Plan.ofJson with
  | some (.ok plan) => return plan
  | _ => throw (.internal s!"Failed to read plan {path}: not a plan")

/-- Shows a plan and carries it out, if there is something to do and nobody objects. Whether all has
been done is answered. -/
def carryOut (w : Workspace) (format : Format) (yes : Bool) (facilities : Facilities)
    (plan : Plan) : Task Bool := do
  if plan.isConverged || format = .text then Task.say (View.plan format false plan)
  if plan.isConverged then return true
  if !yes then Task.confirm "Do you want to apply this plan? [y/N]: " "y" "apply declined"
  let holder ← ExceptT.lift Location.holderName
  let result ← w.reconcile facilities (Reconcile.apply w.stack holder (some plan))
  Task.say (View.reconciliation format result)
  return result.success

/-- Brings the stack to what is declared. Whether all has been done is answered. -/
def apply (w : Workspace) (format : Format) (yes simulate : Bool) (reviewed : Option String) :
    Task Bool := do
  let facilities ← w.facilities simulate
  let plan ← match reviewed with
    | some path => readPlan path
    | none => w.reconcile facilities (Reconcile.plan w.stack)
  w.carryOut format yes facilities plan

/-- What a removal is about to remove, the last created first. -/
def removalLines (state : State) : List String :=
  "The following resources will be destroyed:" ::
    state.inCreationOrder.reverse.map fun r => s!"  - {r.kind.name} {r.id} ({r.providerId})"

/-- Removes all that is recorded. Whether all has been done is answered. -/
def destroy (w : Workspace) (format : Format) (yes simulate : Bool) : Task Bool := do
  let facilities ← w.facilities simulate
  match ← Task.ofState (facilities.location.store .load) with
  | none => Task.note "No state found, nothing to destroy."; return true
  | some state =>
    if state.isEmpty then
      Task.note "No resources recorded, nothing to destroy."
      return true
    if format = .text then Task.notes (removalLines state)
    if !yes then
      Task.confirm "\nThis action is IRREVERSIBLE. Type 'destroy' to confirm: " "destroy"
        "destroy declined"
    let holder ← ExceptT.lift Location.holderName
    let result ← w.reconcile facilities (Reconcile.destroy w.stack holder)
    Task.say (View.reconciliation format result)
    return result.success

def drift (w : Workspace) (format : Format) : Task Unit := do
  let drift ← w.reconcile (.readOnly (← w.location)) (Reconcile.drift w.stack)
  Task.say (View.drift format drift)

/-! ## States -/

def showState (format : Format) (location : Location) : Task Unit := do
  match ← Task.ofState (location.store .load) with
  | some state => Task.say (View.state format state)
  | none => Task.note "No state found."

def lockState (format : Format) (location : Location) (holder : Option String) : Task Unit := do
  let lock ← Task.ofState (location.store (.acquire (holder.getD "")))
  Task.say (View.lock format lock (← Host.now))

/-- Releases the lock of a given id, or by force the one that is there. -/
def unlockState (location : Location) (lockId : Option String) (force : Bool) : Task Unit := do
  if force then
    match ← Task.ofState (location.store .lock) with
    | some held =>
      Task.ofState (location.store (.release held.lockId))
      Task.note s!"State forcefully unlocked (was held by {held.holder})."
    | none => Task.note "State is not locked."
  else
    match lockId with
    | some id =>
      Task.ofState (location.store (.release id))
      Task.note "State unlocked."
    | none => Task.note "Please provide --lock-id or use --force"

def state (w : Workspace) (format : Format) (command : StateCommand) : Task Unit := do
  let location ← w.location
  match command with
  | .show => showState format location
  | .lock holder => lockState format location holder
  | .unlock lockId force => unlockState location lockId force

end Workspace

/-! ## All commands -/

/-- Performs a command. Whether all has been done is answered; only an apply or a removal may leave
something undone. -/
def Command.perform (arguments : Arguments) : Task Bool := do
  let format := arguments.format
  let load : Task Workspace := Workspace.load arguments.config
  match arguments.command with
  | .init path force => Starter.install path force; return true
  | .validate warnings => (← Workspace.read arguments.config).validate format warnings; return true
  | .graph => (← load).graph format; return true
  | .plan detailed out => (← load).plan format detailed out; return true
  | .apply yes simulate reviewed => (← load).apply format yes simulate reviewed
  | .destroy yes simulate => (← load).destroy format yes simulate
  | .drift => (← load).drift format; return true
  | .state command => (← load).state format command; return true

end Converge
