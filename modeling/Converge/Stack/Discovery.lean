import Converge.Host.Basic
import Converge.Host.Path
import Converge.Stack.Schema

/-!
# Finding declarations

A declaration is looked for in a directory and then in those above it, and read from its file.
-/

namespace Converge

namespace Path

/-- A path, and those of all directories above it. Every step shortens the path. -/
def ancestors (path : String) : List String := go (path.length + 1) path
where
  go : Nat → String → List String
    | 0, _ => []
    | fuel + 1, path =>
      match parent? path with
      | some above => path :: go fuel above
      | none => [path]

end Path

namespace Stack

/-- The names of declarations, the first to be preferred. -/
def fileNames : List String := ["stackplan.yaml", "stackplan.yml"]

/-- The name that a declaration is given. -/
def defaultFileName : String := "stackplan.yaml"

/-- Where to look for a declaration from a directory, in order. -/
def candidates (directory : String) : List String :=
  (Path.ancestors directory).flatMap fun above => fileNames.map (Path.join above)

/-- The first of several paths at which there is something. -/
def firstExisting : List String → Program Host.calls (Option String)
  | [] => return none
  | path :: rest => do if ← Host.pathExists path then return some path else firstExisting rest

/-- The path of the declaration that a directory belongs to. -/
def find (directory : String) : Program Host.calls (Except ConfigError String) := do
  match ← firstExisting (candidates directory) with
  | some path => return .ok path
  | none => return .error (.fileNotFound (Path.join directory defaultFileName))

/-- Reads a declaration from its file. -/
def load (path : String) : Program Host.calls (Except ConfigError Stack) := do
  if !(← Host.pathExists path) then return .error (.fileNotFound path)
  match ← Host.readFile path with
  | .ok text => return ofYaml text
  | .error fault => return .error (.parse s!"Failed to read file: {fault.text}")

end Stack

end Converge
