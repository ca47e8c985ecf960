import Converge.Error
import Converge.Host.Basic
import Converge.Text.Blank

/-!
# Tasks

What a command does on the host, step by step, and how it talks to people. A task ends at the first
failure.
-/

namespace Converge

/-- A part of a command, which may fail. -/
abbrev Task (α : Type) := ExceptT Error (Program Host.calls) α

namespace Task

/-- A program whose failures have the given causes. -/
def failing {ε α : Type} (cause : ε → Error) (p : Program Host.calls (Except ε α)) : Task α :=
  ExceptT.mk (Except.mapError cause <$> p)

def ofConfig {α : Type} (p : Program Host.calls (Except ConfigError α)) : Task α :=
  failing .config p

def ofState {α : Type} (p : Program Host.calls (Except StateError α)) : Task α := failing .state p

def ofFile {α : Type} (p : Program Host.calls (Except FileFault α)) : Task α :=
  failing (fun fault => .io fault.text) p

def ofExcept {α : Type} (x : Except Error α) : Task α := ExceptT.mk (pure x)

/-- Prints a line of output. -/
def say (line : String) : Task Unit := ExceptT.lift (Host.print (line ++ "\n"))

/-- Prints a line on the stream for errors. -/
def note (line : String) : Task Unit := ExceptT.lift (Host.printError (line ++ "\n"))

/-- Prints lines on the stream for errors. -/
def notes : List String → Task Unit
  | [] => return
  | line :: rest => do note line; notes rest

/-- Asks a question, and goes on only if the next line of input is the expected answer. Blanks
around it and the case of its letters do not count. -/
def confirm (question expected refusal : String) : Task Unit := do
  ExceptT.lift (Host.printError question)
  let line ← ofFile Host.readLine
  if (Text.trim line).toLower != expected then throw (.apply (.aborted refusal))

end Task

end Converge
