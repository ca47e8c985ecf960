import Converge.Command.Grammar
import Converge.Console.Views

/-!
# Arguments

The commands of the program with their arguments, and the grammar they are read by.
-/

namespace Converge

/-- What to do with the stored state. -/
inductive StateCommand where
  | show
  | lock (holder : Option String)
  | unlock (lockId : Option String) (force : Bool)
deriving DecidableEq, Repr

/-- What to do. -/
inductive Command where
  | init (path : String) (force : Bool)
  | validate (warnings : Bool)
  | graph
  | plan (detailed : Bool) (out : Option String)
  /-- `plan` is the path of a plan that has been reviewed. -/
  | apply (yes simulate : Bool) (plan : Option String)
  | destroy (yes simulate : Bool)
  | drift
  | state (command : StateCommand)
deriving DecidableEq, Repr

/-- A command with what holds for every command. -/
structure Arguments where
  /-- The path of the declaration. -/
  config : Option String
  verbose : Bool
  /-- Whether logs are written as documents. -/
  logJson : Bool
  format : Format
  command : Command
deriving DecidableEq, Repr

namespace Arguments

open CommandLine

/-- The variable of the environment that holds the path of the declaration. -/
def configVariable : String := "STACKPLAN_CONFIG"

/-- An option without a value. -/
def flag (name : String) (letter : Option Char := none) : OptionRule := ⟨name, letter, none⟩

/-- An option whose value is a path. -/
def path (name : String) (letter : Option Char := none) : OptionRule :=
  ⟨name, letter, some .nonempty⟩

/-- An option whose value is any text. -/
def anyText (name : String) : OptionRule := ⟨name, none, some .any⟩

/-- The options that every level understands. -/
def common : List OptionRule := [
  path "config" (some 'c'),
  flag "verbose" (some 'v'),
  flag "log-json",
  ⟨"output", none, some (.oneOf (Format.all.map Format.name))⟩]

/-- A level without commands. -/
def leaf (options : List OptionRule) (operand : Option OptionRule := none) : Grammar :=
  .mk (common ++ options) operand []

def stateGrammar : Grammar := .mk common none [
  ("show", leaf []),
  ("lock", leaf [anyText "holder"]),
  ("unlock", leaf [anyText "lock-id", flag "force"])]

/-- The grammar of the program's command line. -/
def grammar : Grammar := .mk common none [
  ("init", leaf [flag "force" (some 'f')] (some (path "path"))),
  ("validate", leaf [flag "warnings" (some 'w')]),
  ("graph", leaf []),
  ("plan", leaf [flag "detailed" (some 'd'), path "out"]),
  ("apply", leaf [flag "yes" (some 'y'), flag "simulate", path "plan"]),
  ("destroy", leaf [flag "yes" (some 'y'), flag "simulate"]),
  ("drift", leaf []),
  ("state", stateGrammar)]

/-- The command at the end of a path of names. -/
def commandOf (r : Reading) : Option Command :=
  match r.path with
  | ["init"] => some (.init ((r.value? "path").getD ".") (r.has "force"))
  | ["validate"] => some (.validate (r.has "warnings"))
  | ["graph"] => some .graph
  | ["plan"] => some (.plan (r.has "detailed") (r.value? "out"))
  | ["apply"] => some (.apply (r.has "yes") (r.has "simulate") (r.value? "plan"))
  | ["destroy"] => some (.destroy (r.has "yes") (r.has "simulate"))
  | ["drift"] => some .drift
  | ["state", "show"] => some (.state .show)
  | ["state", "lock"] => some (.state (.lock (r.value? "holder")))
  | ["state", "unlock"] => some (.state (.unlock (r.value? "lock-id") (r.has "force")))
  | _ => none

/-- Reads the words after the program's name. `config` is the path of the declaration that the
environment holds. -/
def parse (config : Option String) (words : List String) : Except UsageError Arguments := do
  let environment := (config.map (Table.empty.insert "config" ·)).getD .empty
  let r ← CommandLine.read environment grammar words
  match commandOf r with
  | none => throw .missingCommand
  | some command =>
    return {
      config := r.value? "config"
      verbose := r.has "verbose"
      logJson := r.has "log-json"
      format := (Format.all.find? fun format => r.value? "output" = some format.name).getD .text
      command }

end Arguments

end Converge
