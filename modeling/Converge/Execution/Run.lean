import Converge.Execution.Coordinator

/-!
# Runs

An apply from beginning to end, as a program that calls a provider. Its clock stands still while
anybody works, and is put forward to the next alarm when all sleep. Workers run in the order in
which they start, each until it ends or sleeps, and those whose alarms go off together in the order
in which they set them. The coordinator takes in finished workers one by one, and starts what it can
after each.
-/

namespace Converge

/-- What surrounds an apply. -/
structure RunSettings where
  /-- How many workers may be under way at a time. -/
  concurrency : Nat
  retry : RetryPolicy
  /-- Milliseconds that every provider call takes. -/
  latencyMs : Nat := 0
  /-- The number of the provider call at whose beginning the apply is cancelled; zero cancels it
  before the first. -/
  cancelAt : Option Nat := none

/-- What a worker does when it wakes. -/
inductive Wake where
  /-- It begins a call. -/
  | attempt
  /-- The call that it has begun takes effect. -/
  | call
deriving DecidableEq

/-- A worker that sleeps. -/
structure Sleeper where
  wakesAt : Nat
  wake : Wake
  worker : Worker

/-- A run under way. -/
structure Run where
  coordinator : Coordinator
  /-- Milliseconds since the beginning. -/
  clock : Nat := 0
  /-- Workers that have been started and not run yet, in order. -/
  started : List Worker := []
  /-- Outcomes not taken in yet, in order; `none` for a worker that was lost. -/
  finished : List (Option Outcome) := []
  /-- Sleeping workers by the time at which they wake, of equals in the order in which they fell
  asleep. -/
  sleepers : List Sleeper := []
  /-- Number of provider calls begun. -/
  calls : Nat := 0
  /-- Number of provider calls begun and not ended. -/
  inFlight : Nat := 0
  /-- The most provider calls that were under way at once. -/
  peak : Nat := 0
  /-- Whether cancelling has been asked for. -/
  cancelAsked : Bool := false

namespace RunSettings

def ofApply (settings : ApplySettings) : RunSettings where
  concurrency := max settings.concurrency 1
  retry := .ofSettings settings

end RunSettings

namespace Run

/-- Puts a sleeper behind all that wake no later. -/
def insertSleeper (sleeper : Sleeper) : List Sleeper → List Sleeper
  | [] => [sleeper]
  | first :: rest =>
    if sleeper.wakesAt < first.wakesAt then sleeper :: first :: rest
    else first :: insertSleeper sleeper rest

/-- A worker falls asleep. -/
def sleep (r : Run) (delay : Nat) (wake : Wake) (worker : Worker) : Run :=
  { r with sleepers := insertSleeper ⟨r.clock + delay, wake, worker⟩ r.sleepers }

/-- A provider call begins. -/
def beginCall (settings : RunSettings) (r : Run) : Run :=
  let calls := r.calls + 1
  { r with
    calls
    inFlight := r.inFlight + 1
    peak := max r.peak (r.inFlight + 1)
    cancelAsked := r.cancelAsked || settings.cancelAt = some calls }

/-- A provider call ends. -/
def endCall (r : Run) : Run := { r with inFlight := r.inFlight - 1 }

/-- Takes note of what came of a worker. -/
def finish (r : Run) (result : Option Outcome) : Run := { r with finished := r.finished ++ [result] }

/-- Lets a worker run until it ends or sleeps. A worker tries as often as the policy allows at
most, and each time it begins a call and ends it. -/
def runWorker (settings : RunSettings) : (fuel : Nat) → Wake → Worker → Run → Program Provider.calls Run
  | 0, _, _, r => return r
  | fuel + 1, wake, w, r =>
    if wake = .attempt && w.canCall then
      let r := r.beginCall settings
      if settings.latencyMs = 0 then runWorker settings fuel .call w r
      else return r.sleep settings.latencyMs .call w
    else do
      let reply ← w.call
      let r := if w.canCall then r.endCall else r
      match w.afterCall settings.retry reply with
      | .finished outcome => return r.finish (some outcome)
      | .lost => return r.finish none
      | .retry w delay =>
        if delay = 0 then runWorker settings fuel .attempt w r
        else return r.sleep delay .attempt w

/-- Lets a worker run from where it is. -/
def runOn (settings : RunSettings) (r : Run) (wake : Wake) (w : Worker) : Program Provider.calls Run :=
  runWorker settings (2 * settings.retry.maxAttempts + 2) wake w r

/-- Lets everybody run who can: the workers that have just been started, or else those whose alarm
goes off next. Without either there is nothing to wait for. -/
def advance (settings : RunSettings) (r : Run) : Program Provider.calls (Option Run) :=
  match r.started, r.sleepers with
  | [], [] => return none
  | [], first :: _ => do
    Provider.pause (first.wakesAt - r.clock)
    let due := r.sleepers.takeWhile (·.wakesAt = first.wakesAt)
    let r := { r with clock := first.wakesAt, sleepers := r.sleepers.drop due.length }
    some <$> due.foldlM (fun r s => r.runOn settings s.wake s.worker) r
  | started, _ =>
    some <$> started.foldlM (fun r w => r.runOn settings .attempt w) { r with started := [] }

/-- The coordinator looks whether it is to go on, and starts what it can. -/
def coordinate (settings : RunSettings) (r : Run) : Run :=
  let (coordinator, workers) :=
    (r.coordinator.observe r.cancelAsked).startReady settings.concurrency
  { r with coordinator, started := r.started ++ workers }

/-- Waits for the next finished worker. Nothing if none is under way. -/
def await (settings : RunSettings) :
    (fuel : Nat) → Run → Program Provider.calls (Run × Option (Option Outcome))
  | 0, r => return (r, none)
  | fuel + 1, r =>
    match r.finished with
    | first :: rest => return ({ r with finished := rest }, some first)
    | [] => do
      match ← r.advance settings with
      | none => return (r, none)
      | some r => await settings fuel r

/-- Coordinates and waits in turn, until no worker is under way. The error is a worker that was
lost. -/
def loop (settings : RunSettings) (patience : Nat) :
    (fuel : Nat) → Run → Program Provider.calls (Except ApplyError Report × Run)
  | 0, r => return (.ok r.coordinator.report, r)
  | fuel + 1, r => do
    match ← await settings patience (r.coordinate settings) with
    | (r, none) => return (.ok r.coordinator.report, r)
    | (r, some none) => return (.error (.workerLost "a provider call did not return"), r)
    | (r, some (some outcome)) =>
      loop settings patience fuel { r with coordinator := r.coordinator.collect outcome }

/-- Applies a plan, which has to be well ordered. Every worker is taken in once. While one is
awaited every worker wakes twice an attempt at most. -/
def apply (settings : RunSettings) (plan : Plan) :
    Program Provider.calls (Except ApplyError Report × Run) :=
  let r : Run := { coordinator := .start plan, cancelAsked := settings.cancelAt = some 0 }
  if !plan.isWellOrdered then
    return (.error (.aborted "plan steps are not in dependency order"), r)
  else
    let count := plan.steps.length
    loop settings (count * (2 * settings.retry.maxAttempts + 1) + 1) (count + 1) r

end Run

end Converge
