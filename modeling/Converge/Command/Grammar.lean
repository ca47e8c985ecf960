import Converge.Table

/-!
# Command lines

Reading a command line by a grammar: options and operands at every level, and commands that lead to
the next. What one level has understood is a table from names to values.

An option is read where it stands, and its value is checked when the next option or operand of its
level begins, or at the end of the level. Of two faults the one found first is answered.
-/

namespace Converge.CommandLine

/-- Why a command line is not understood, or asks for something else than a command. -/
inductive UsageError where
  | help
  | version
  /-- A command is missing, and nothing else is given. -/
  | helpForMissingCommand
  | missingCommand
  | unknownCommand
  | unknownArgument
  /-- A value is missing, or is none that is allowed. -/
  | invalidValue
  /-- A value is given to an option that takes none. -/
  | unwantedValue
  /-- An option is given twice. -/
  | repeatedOption
deriving DecidableEq, Repr

/-- What values are allowed. -/
inductive ValueRule where
  | any
  | nonempty
  | oneOf (names : List String)
deriving DecidableEq, Repr

/-- An option, or an operand that stands for itself. -/
structure OptionRule where
  name : String
  letter : Option Char := none
  /-- The rule for its value; nothing if it takes none. -/
  value : Option ValueRule := none
deriving DecidableEq, Repr

/-- What is understood at one level. -/
inductive Grammar where
  | mk (options : List OptionRule) (operand : Option OptionRule)
    (commands : List (String × Grammar))
deriving Inhabited

/-- What has been understood at one level. -/
abbrev Given := Table String

/-- What has been understood of a command line. -/
structure Reading where
  /-- The names of the commands. -/
  path : List String
  /-- What was given at every level, the outermost first. -/
  levels : List Given
  /-- Values for options that are not given. -/
  environment : Given

namespace ValueRule

def allows (rule : ValueRule) (value : String) : Bool :=
  match rule with
  | .any => true
  | .nonempty => !value.isEmpty
  | .oneOf names => names.contains value

end ValueRule

namespace Grammar

def options : Grammar → List OptionRule
  | .mk options _ _ => options

def operand : Grammar → Option OptionRule
  | .mk _ operand _ => operand

def commands : Grammar → List (String × Grammar)
  | .mk _ _ commands => commands

def command? (g : Grammar) (name : String) : Option Grammar := g.commands.lookup name

/-- The options that ask for something else than a command, and what they ask for. -/
def inquiries : List (OptionRule × UsageError) :=
  [(⟨"help", some 'h', none⟩, .help), (⟨"version", some 'V', none⟩, .version)]

/-- The command that explains other commands. -/
def helpCommand : String := "help"

/-- What is asked for by words after the help command. -/
def inquire (g : Grammar) : List String → UsageError
  | [] => .help
  | name :: rest =>
    match g.command? name with
    | some sub => sub.inquire rest
    | none =>
      if name = helpCommand && !g.commands.isEmpty then
        (if rest.isEmpty then .help else .unknownCommand)
      else .unknownCommand

end Grammar

/-- One level under way. -/
structure Level where
  given : Given := .empty
  /-- An option or operand whose value has not been checked, and that value if it has come. -/
  pending : Option (OptionRule × Option String) := none
  /-- Whether all that follows are operands. -/
  isTrailing : Bool := false

namespace Level

/-- Takes an option with its value, which has to be there and to be allowed. -/
def accept (l : Level) (rule : OptionRule) (value : Option String) : Except UsageError Level :=
  match rule.value, value with
  | none, _ =>
    if l.given.contains rule.name then .error .repeatedOption
    else .ok { l with given := l.given.insert rule.name "" }
  | some _, none => .error .invalidValue
  | some allowed, some value =>
    if l.given.contains rule.name then .error .repeatedOption
    else if allowed.allows value then .ok { l with given := l.given.insert rule.name value }
    else .error .invalidValue

/-- Checks the value that is pending. -/
def settle (l : Level) : Except UsageError Level :=
  match l.pending with
  | none => .ok l
  | some (rule, value) => { l with pending := none }.accept rule value

/-- Takes an option that stands with its value, or takes none. -/
def take (l : Level) (rule : OptionRule) (value : Option String) : Except UsageError Level := do
  (← l.settle).accept rule value

/-- Lets an option wait for its value. -/
def await (l : Level) (rule : OptionRule) (value : Option String) : Except UsageError Level := do
  return { ← l.settle with pending := some (rule, value) }

/-- Whether the next word is the value of an option. -/
def awaitsValue (l : Level) : Bool :=
  match l.pending with
  | some (_, none) => !l.isTrailing
  | _ => false

/-- Answers an inquiry. -/
def ask (l : Level) (inquiry : UsageError) : Except UsageError Level := do
  let _ ← l.settle
  throw inquiry

/-- Reads an option of a level by its name, with a value if one stands with it. -/
def readLong (g : Grammar) (l : Level) (name : String) (value : Option String) :
    Except UsageError Level :=
  match Grammar.inquiries.find? (·.1.name == name) with
  | some (_, inquiry) => if value.isSome then .error .unwantedValue else l.ask inquiry
  | none =>
    match g.options.find? (·.name == name) with
    | none => .error .unknownArgument
    | some rule =>
      match rule.value, value with
      | none, some _ => .error .unwantedValue
      | none, none | some _, some _ => l.take rule value
      | some _, none => l.await rule none

/-- Reads options by their letters. The first that takes a value takes what follows as such, with or
without an equals sign. -/
def readLetters (g : Grammar) (l : Level) : List Char → Except UsageError Level
  | [] => .ok l
  | letter :: rest =>
    match Grammar.inquiries.find? (·.1.letter == some letter) with
    | some (_, inquiry) => l.ask inquiry
    | none =>
      match g.options.find? (·.letter == some letter) with
      | none => .error .unknownArgument
      | some rule =>
        match rule.value, rest with
        | none, _ => do readLetters g (← l.take rule none) rest
        | some _, [] => l.await rule none
        | some _, '=' :: value => l.take rule (some (String.ofList value))
        | some _, value => l.take rule (some (String.ofList value))

/-- Reads a word that is no option. -/
def readOperand (g : Grammar) (l : Level) (word : String) : Except UsageError Level :=
  match g.operand with
  | some rule =>
    if l.given.contains rule.name || l.pending.any (·.1 == rule) then .error .unknownArgument
    else l.await rule (some word)
  | none =>
    let isCommand := (g.command? word).isSome || word = Grammar.helpCommand
    if g.commands.isEmpty || (l.isTrailing && isCommand) then .error .unknownArgument
    else .error .unknownCommand

/-- Splits a word at its first equals sign. -/
def splitValue (word : List Char) : String × Option String :=
  match word.dropWhile (· != '=') with
  | [] => (String.ofList word, none)
  | _ :: value => (String.ofList (word.takeWhile (· != '=')), some (String.ofList value))

/-- Reads a word that is no command. -/
def readWord (g : Grammar) (l : Level) (word : String) : Except UsageError Level :=
  if l.isTrailing then l.readOperand g word
  else
    match word.toList with
    | ['-', '-'] => .ok { l with isTrailing := true }
    | '-' :: '-' :: rest => let (name, value) := splitValue rest; l.readLong g name value
    | '-' :: letter :: rest => l.readLetters g (letter :: rest)
    | _ =>
      match l.pending with
      | some (rule, none) => .ok { l with pending := some (rule, some word) }
      | _ => l.readOperand g word

/-- Whether a rule allows the value that the environment holds for it, if it holds one. -/
def allowsEnvironment (environment : Given) (rule : OptionRule) : Bool :=
  match rule.value, environment.get? rule.name with
  | some allowed, some value => allowed.allows value
  | _, _ => true

/-- Ends a level: its last value is checked, and so are the values that the environment holds for
options that are not given. A command has to have followed if there are any. -/
def finish (g : Grammar) (environment : Given) (l : Level) (hasCommand : Bool) :
    Except UsageError Given := do
  let l ← l.settle
  let missing := g.options.filter fun rule => !l.given.contains rule.name
  if !missing.all (allowsEnvironment environment) then throw .invalidValue
  if !hasCommand && !g.commands.isEmpty then
    let isBare := l.given.isEmpty && !missing.any fun rule => environment.contains rule.name
    throw (if isBare then .helpForMissingCommand else .missingCommand)
  return l.given

end Level

/-- Reads a command line on from the middle of a level. -/
def readFrom (environment : Given) (g : Grammar) (l : Level) :
    List String → Except UsageError Reading
  | [] => do return ⟨[], [← l.finish g environment false], environment⟩
  | word :: rest =>
    if !l.isTrailing && !l.awaitsValue && word = Grammar.helpCommand && !g.commands.isEmpty then
      .error (g.inquire rest)
    else
      match if l.isTrailing || l.awaitsValue then none else g.command? word with
      | some sub => do
        let inner ← readFrom environment sub {} rest
        return { inner with
          path := word :: inner.path
          levels := (← l.finish g environment true) :: inner.levels }
      | none => do readFrom environment g (← l.readWord g word) rest

/-- Reads a command line. `environment` holds values for options that are not given. -/
def read (environment : Given) (g : Grammar) (words : List String) : Except UsageError Reading :=
  readFrom environment g {} words

namespace Reading

/-- The value of an option: the one given at the innermost level, or else that of the
environment. -/
def value? (r : Reading) (name : String) : Option String :=
  (r.levels.reverse.findSome? (·.get? name)).or (r.environment.get? name)

/-- Whether an option is given at some level. -/
def has (r : Reading) (name : String) : Bool := (r.value? name).isSome

end Reading

end Converge.CommandLine
