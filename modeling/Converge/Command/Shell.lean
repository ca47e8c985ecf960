import Converge.Command.Perform

/-!
# The command line

From the words of a command line to the status that the program ends with.
-/

namespace Converge

namespace ExitStatus

def success : Nat := 0

def failure : Nat := 1

/-- Something was left undone, or the command line was not understood. -/
def incomplete : Nat := 2

end ExitStatus

namespace CommandLine.UsageError

/-- What the program says of itself. -/
def versionText : String := "stackplan 0.1.0\n"

/-- How the program is used. -/
def helpText : String :=
  "Declarative infrastructure topology compiler\n\n" ++
  "Usage: stackplan [OPTIONS] <COMMAND>\n\n" ++
  "Commands:\n" ++
  "  init [PATH] [--force]                       Start a stack in a directory\n" ++
  "  validate [--warnings]                       Check the declaration\n" ++
  "  graph                                       Show the dependency graph\n" ++
  "  plan [--detailed] [--out FILE]              Show what an apply would do\n" ++
  "  apply [--yes] [--simulate] [--plan FILE]    Bring the stack to what is declared\n" ++
  "  destroy [--yes] [--simulate]                Remove every recorded resource\n" ++
  "  drift                                       Compare the state with the declaration\n" ++
  "  state show | lock | unlock                  Look at the state, or lock it\n\n" ++
  "Options:\n" ++
  "  -c, --config FILE    The declaration [env: STACKPLAN_CONFIG]\n" ++
  "  -v, --verbose        Log more\n" ++
  "      --log-json       Log documents\n" ++
  "      --output FORMAT  text or json\n" ++
  "  -h, --help           Show this\n" ++
  "  -V, --version        Show the version\n"

/-- What is wrong with a command line. -/
def complaint : UsageError → String
  | .help | .version | .helpForMissingCommand | .missingCommand => "a command is missing"
  | .unknownCommand => "there is no such command"
  | .unknownArgument => "an argument is not expected"
  | .invalidValue => "a value is missing or not allowed"
  | .unwantedValue => "an option takes no value"
  | .repeatedOption => "an option is given twice"

/-- Answers a command line that holds no command to perform. -/
def answer : UsageError → Program Host.calls Nat
  | .help => do Host.print helpText; return ExitStatus.success
  | .version => do Host.print versionText; return ExitStatus.success
  | .helpForMissingCommand => do Host.printError helpText; return ExitStatus.incomplete
  | fault => do
    Host.printError s!"error: {fault.complaint}\n\nFor more information, try '--help'.\n"
    return ExitStatus.incomplete

end CommandLine.UsageError

/-- The status that a command ends with. A failure is told on the stream for errors. -/
def Command.run (arguments : Arguments) : Program Host.calls Nat := do
  match ← (perform arguments).run with
  | .ok true => return ExitStatus.success
  | .ok false => return ExitStatus.incomplete
  | .error cause =>
    Host.printError s!"Error: {cause.message}\n"
    return ExitStatus.failure

/-- The whole program: reads the words after its name and performs what they say. -/
def commandLine (words : List String) : Program Host.calls Nat := do
  match Arguments.parse (← Host.lookUp Arguments.configVariable) words with
  | .ok arguments => Command.run arguments
  | .error fault => fault.answer

end Converge
