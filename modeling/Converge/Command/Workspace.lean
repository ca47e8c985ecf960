import Converge.Command.Task
import Converge.Environment.File
import Converge.Reconcile.Facilities
import Converge.Stack.Check
import Converge.Stack.Discovery

/-!
# Workspaces

The surroundings of a command: the declaration with the directory it lies in, and the variables that
an environment file there sets.
-/

namespace Converge

/-- A declaration and its surroundings. -/
structure Workspace where
  /-- The stack, with settings taken from the environment. -/
  stack : Stack
  directory : String
  /-- Variables that the environment file sets. -/
  environment : Environment

namespace Workspace

/-- The name of environment files. -/
def environmentFile : String := ".env"

/-- The directory of a file. -/
def directoryOf (path : String) : String :=
  match Path.parent? path with
  | some directory => if directory.isEmpty then "." else directory
  | none => "."

/-- Reads the declaration at a path, or else the one that the working directory belongs to. It need
not be valid. -/
def read (config : Option String) : Task Workspace := do
  let path ← match config with
    | some path => pure path
    | none => Task.ofConfig (Stack.find ".")
  let directory := directoryOf path
  let environment ← Task.ofConfig (Environment.load (Path.join directory environmentFile))
  let stack ← Task.ofConfig (Stack.load path)
  let settings ← ExceptT.lift (Environment.collect environment Stack.overriding)
  return { stack := stack.withEnvironment settings, directory, environment }

/-- Refuses a declaration that breaks a rule. -/
def check (w : Workspace) : Task Unit := do
  let _ ← Task.ofConfig (pure w.stack.validate)

/-- Reads a declaration, which has to be valid. -/
def load (config : Option String) : Task Workspace := do
  let w ← read config
  w.check
  return w

/-! ## Facilities -/

/-- Where the state is kept. -/
def location (w : Workspace) : Task Location :=
  Task.ofConfig (pure (w.stack.stateLocation w.directory))

/-- Where the state is kept of a rehearsal. -/
def scratch (w : Workspace) : Location :=
  .directory (Path.join (Path.join w.directory Location.defaultDirectory) "simulate")

/-- The service that holds the resources. A token that is empty does not count. -/
def remote (w : Workspace) : Task Remote := do
  let token ← ExceptT.lift (Environment.lookUp w.environment Remote.tokenVariable)
  Task.ofConfig (pure (Remote.ofSettings w.stack.provider (token.filter (!·.isEmpty))))

/-- The facilities of a rehearsal: a copy of the state, and a provider in memory that holds what is
recorded. -/
def rehearsal (w : Workspace) (location : Location) : Task Facilities := do
  match ← Task.ofState (location.store .load) with
  | some state =>
    Task.ofState (w.scratch.store (.save state))
    return ⟨w.scratch, .memory (Memory.ofState state)⟩
  | none =>
    Task.ofState (w.scratch.store .delete)
    return ⟨w.scratch, .memory .empty⟩

/-- The facilities of an apply or a removal. -/
def facilities (w : Workspace) (simulate : Bool) : Task Facilities := do
  let location ← w.location
  if simulate then w.rehearsal location else return ⟨location, .remote (← w.remote)⟩

/-- Runs a program that reconciles the stack. -/
def reconcile {α : Type} (w : Workspace) (f : Facilities)
    (p : Program Reconcile.calls (Except Error α)) : Task α :=
  ExceptT.mk (f.run (.ofApply w.stack.apply) p)

end Workspace

end Converge
