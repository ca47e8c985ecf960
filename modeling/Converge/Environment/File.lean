import Converge.Host.Basic
import Converge.Stack.Environment
import Converge.Text.Blank
import Converge.Text.Lines

/-!
# Environment files

Files that set variables, one to a line: a name, an equals sign and a value. A value may be quoted,
may escape characters by a backslash, and may refer to variables. A quoted value may go on over the
ends of lines. What follows a hash sign after a blank is a comment.

A variable that is set already keeps its value, be it from outside or from an earlier line.
-/

namespace Converge.Environment

/-- A part of a value. -/
inductive Piece where
  | text (characters : List Char)
  | variable (name : String)
deriving DecidableEq, Repr

/-- A line that sets a variable. -/
structure Binding where
  name : String
  value : List Piece
deriving DecidableEq, Repr

/-! ## Lines -/

/-- How far the characters of a line have been understood when lines are joined. -/
inductive LineState where
  | plain
  | blank
  | escape
  | single
  | singleEscape
  | double
  | doubleEscape
deriving DecidableEq, Repr

namespace LineState

/-- The state after a character that is not inside quotes. -/
def outside (c : Char) (otherwise : LineState) : LineState :=
  if c = '\\' then .escape
  else if c = '"' then .double
  else if c = '\x27' then .single
  else otherwise

def next (s : LineState) (c : Char) : LineState :=
  match s with
  | .blank => outside c .plain
  | .plain =>
    outside c (if Text.isBlank c && c != '\n' && c != '\r' then .blank else .plain)
  | .escape => .plain
  | .double => if c = '\\' then .doubleEscape else if c = '"' then .plain else .double
  | .doubleEscape => .double
  | .single => if c = '\\' then .singleEscape else if c = '\x27' then .plain else .single
  | .singleEscape => .single

end LineState

/-- Reads a line on from a state: up to where a comment begins, or to the end, with the state
there. -/
def scanLine : LineState → List Char → List Char × Option LineState
  | s, [] => ([], some s)
  | s, c :: rest =>
    if s = .blank && c = '#' then ([], none)
    else
      let (kept, ended) := scanLine (s.next c) rest
      (c :: kept, ended)

/-- A line without its end. -/
def dropLineBreak (line : List Char) : List Char :=
  match line.reverse with
  | '\n' :: '\r' :: rest => rest.reverse
  | '\n' :: rest => rest.reverse
  | _ => line

/-- Joins lines as long as one goes on in the next. `held` is what has been joined so far. Nothing if
the text ends in the middle. -/
def joinLines (held : List Char) (s : LineState) : List (List Char) → Option (List (List Char))
  | [] => if s = .plain then some [] else none
  | line :: rest =>
    let joined := held ++ line
    if (joined.dropWhile Text.isBlank).head? = some '#' then joinLines [] .plain rest
    else
      match scanLine s line with
      | (kept, none) => (joinLines [] .plain rest).map ((held ++ kept) :: ·)
      | (_, some .plain) => (joinLines [] .plain rest).map (dropLineBreak joined :: ·)
      | (_, some s) => joinLines joined s rest

/-! ## Values -/

/-- What the next character of a value is part of. -/
inductive ValueState where
  | plain
  | double
  | single
  /-- After a backslash. -/
  | escape (inDouble : Bool)
  /-- In the name of a variable, collected in reverse. -/
  | name (inDouble : Bool) (collected : List Char)
  /-- In the name of a variable between braces, collected in reverse. -/
  | braced (inDouble : Bool) (collected : List Char)
  /-- After the value, where a comment may follow. -/
  | ended
deriving DecidableEq, Repr

/-- The state inside or outside of double quotes. -/
def ValueState.resume (inDouble : Bool) : ValueState := if inDouble then .double else .plain

/-- The reference to a variable whose name has been collected in reverse. -/
def reference (collected : List Char) : Piece := .variable (String.ofList collected.reverse)

/-- The character that stands for an escaped one. -/
def unescape? : Char → Option Char
  | '\\' => some '\\'
  | '\x27' => some '\x27'
  | '"' => some '"'
  | '$' => some '$'
  | ' ' => some ' '
  | 'n' => some '\n'
  | _ => none

/-- Reads a character of a value: the state after it and what it completes, or nothing if it may not
stand there. Names of variables consist of letters and digits of ASCII. -/
def readChar? (s : ValueState) (c : Char) : Option (ValueState × List Piece) :=
  match s with
  | .ended => if c = ' ' || c = '\t' then some (.ended, []) else none
  | .escape inDouble => (unescape? c).map fun c => (.resume inDouble, [.text [c]])
  | .single => if c = '\x27' then some (.plain, []) else some (.single, [.text [c]])
  | .name inDouble collected =>
    if c.isAlphanum then some (.name inDouble (c :: collected), [])
    else if c = '\x7b' && collected.isEmpty then some (.braced inDouble [], [])
    else if c = '$' then some (.name inDouble [], [reference collected])
    else some (.resume inDouble, [reference collected, .text [c]])
  | .braced inDouble collected =>
    if c = '\x7d' then some (.resume inDouble, [reference collected])
    else some (.braced inDouble (c :: collected), [])
  | .double =>
    if c = '$' then some (.name true [], [])
    else if c = '"' then some (.plain, [])
    else if c = '\\' then some (.escape true, [])
    else some (.double, [.text [c]])
  | .plain =>
    if c = '$' then some (.name false [], [])
    else if c = '\x27' then some (.single, [])
    else if c = '"' then some (.double, [])
    else if c = '\\' then some (.escape false, [])
    else if c = ' ' || c = '\t' then some (.ended, [])
    else some (.plain, [.text [c]])

/-- Reads a value on from a state. Quotes and braces have to be closed. -/
def readValue? : ValueState → List Char → Option (List Piece)
  | s, [] =>
    match s with
    | .name false collected => some [reference collected]
    | .plain | .ended | .escape false => some []
    | .double | .single | .escape true | .name true _ | .braced _ _ => none
  | s, c :: rest =>
    if s = .ended && c = '#' then some []
    else do
      let (s, pieces) ← readChar? s c
      return pieces ++ (← readValue? s rest)

/-! ## Bindings -/

def isNameStart (c : Char) : Bool := c.isAlpha || c = '_'

def isNameChar (c : Char) : Bool := c.isAlphanum || c = '_' || c = '.'

/-- Reads a name, and what follows it after blanks. -/
def readName? (cs : List Char) : Option (String × List Char) :=
  if cs.head?.any isNameStart then
    some (String.ofList (cs.takeWhile isNameChar), (cs.dropWhile isNameChar).dropWhile Text.isBlank)
  else none

/-- Reads a name and the equals sign after it. The word `export` may stand in front. -/
def readAssignment? (cs : List Char) : Option (String × List Char) := do
  let (name, rest) ← readName? cs
  match rest with
  | '=' :: rest => return (name, rest)
  | _ =>
    if name != "export" then none
    match ← readName? rest with
    | (name, '=' :: rest) => return (name, rest)
    | _ => none

/-- Reads a line, which may be empty or a comment. -/
def readLine? (line : List Char) : Option (Option Binding) :=
  let cs := Text.trimChars line
  if cs.isEmpty || cs.head? = some '#' then some none
  else do
    let (name, rest) ← readAssignment? cs
    let rest := rest.dropWhile Text.isBlank
    if rest.head? = some '#' then return some ⟨name, []⟩
    return some ⟨name, ← readValue? .plain rest⟩

/-- Reads the bindings of an environment file. Nothing if it is not well formed. -/
def readBindings? (text : String) : Option (List Binding) := do
  let cs := text.toList
  let cs := if cs.head? = some '\uFEFF' then cs.drop 1 else cs
  let lines ← joinLines [] .plain (Text.splitLines cs)
  return (← lines.mapM readLine?).filterMap id

/-! ## Variables -/

/-- A variable of the host, or else one that a file has set. -/
def lookUp (set : Environment) (name : String) : Program Host.calls (Option String) := do
  match ← Host.lookUp name with
  | some value => return some value
  | none => return set.get? name

/-- The value that pieces come to. A variable that is not set is empty. -/
def evaluate (set : Environment) : List Piece → Program Host.calls String
  | [] => return ""
  | .text characters :: rest => return String.ofList characters ++ (← evaluate set rest)
  | .variable name :: rest => do
    let value := (← lookUp set name).getD ""
    return value ++ (← evaluate set rest)

/-- Sets variables one after the other, but none that is set already. -/
def assign (set : Environment) : List Binding → Program Host.calls Environment
  | [] => return set
  | ⟨name, value⟩ :: rest => do
    let value ← evaluate set value
    match ← lookUp set name with
    | some _ => assign set rest
    | none => assign (set.insert name value) rest

/-- The variables that the environment file at a path sets. Without a file there are none. -/
def load (path : String) : Program Host.calls (Except ConfigError Environment) := do
  let failure (cause : String) : ConfigError := .parse s!"Failed to load .env file: {cause}"
  if !(← Host.pathExists path) then return .ok .empty
  match ← Host.readFile path with
  | .error fault => return .error (failure fault.text)
  | .ok text =>
    match readBindings? text with
    | none => return .error (failure "a line is not a variable")
    | some bindings => .ok <$> assign .empty bindings

/-- The values of variables, from outside or from a file. -/
def collect (set : Environment) : List String → Program Host.calls Environment
  | [] => return .empty
  | name :: rest => do
    let value ← lookUp set name
    let collected ← collect set rest
    return (value.map (collected.insert name ·)).getD collected

end Converge.Environment
