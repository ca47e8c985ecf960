import Converge.Json.Reader
import Converge.Json.Writer
import Converge.State.Basic

/-!
# State documents

The text under which a state is kept. A document of another major version is not read.
-/

namespace Converge.State

/-- The document of a state. -/
def encode (s : State) : String := s.toJson.pretty

/-- The part of a version before its first point. -/
def majorVersion (version : String) : String :=
  String.ofList (version.toList.takeWhile (· != '.'))

/-- Reads the document of a state. -/
def decode (text : String) : Except StateError State :=
  let corrupted (cause : String) : StateError := .corrupted s!"Failed to parse state: {cause}"
  match Json.read? text with
  | none => .error (corrupted "not a document")
  | some value =>
    match ofJson value with
    | .error _ => .error (corrupted "not a state")
    | .ok s =>
      if majorVersion s.version = majorVersion currentVersion then .ok s
      else .error (.versionMismatch currentVersion s.version)

end Converge.State
