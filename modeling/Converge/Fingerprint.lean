import Converge.Digest.Sha256
import Converge.Graph.Basic
import Converge.Json.Writer
import Converge.Stack.Basic

/-!
# Fingerprints

Digests that identify what is declared. Each is taken over compact documents, whose text is
determined by the value, so equal declarations have equal fingerprints.
-/

namespace Converge.Fingerprint

/-- The fingerprint of a document. -/
def ofJson (value : Json) : String := Sha256.hexOfString value.compact

def ofNode (node : Node) : String := ofJson node.toJson

def ofAttributes (attributes : Attributes) : String := ofJson (.ofAttributes attributes)

/-- The fingerprint of a graph: that of its nodes' fingerprints in declaration order. -/
def ofGraph (g : Graph) : String :=
  Sha256.hexOfString (String.join (g.nodes.map ofNode))

/-- The fingerprint of a declaration: that of its name and environment with a zero between them,
and of its resources. The settings do not count. -/
def ofStack (s : Stack) : String :=
  Sha256.hexOfString (s.project.name ++ "\x00" ++ s.project.environment ++
    String.join (s.resources.map fun d => d.toJson.compact))

/-- How many bytes of a fingerprint are shown. -/
def shownBytes : Nat := 12

/-- The characters of a list whose UTF-8 forms fill exactly the given number of bytes. -/
def takeBytes? : (bytes : Nat) → List Char → Option (List Char)
  | 0, _ => some []
  | _ + 1, [] => none
  | bytes + 1, c :: rest =>
    if c.utf8Size ≤ bytes + 1 then (takeBytes? (bytes + 1 - c.utf8Size) rest).map (c :: ·)
    else none
termination_by _ cs => cs.length

/-- The beginning of a fingerprint. What cannot be cut there is left whole. -/
def short (fingerprint : String) : String :=
  match takeBytes? shownBytes fingerprint.toList with
  | some shown => String.ofList shown
  | none => fingerprint

end Converge.Fingerprint
