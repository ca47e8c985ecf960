import Converge.Error
import Converge.Text.Blank

/-!
# References

A reference names an output of another resource, written as the resource's id, a point and the
name of the output. Only the first point separates: an output name may hold more of them.
-/

namespace Converge

/-- The output `output` of the resource `nodeId`. -/
structure Reference where
  nodeId : String
  output : String
deriving DecidableEq, Repr

namespace Reference

/-- The written form. -/
def render (r : Reference) : String := r.nodeId ++ "." ++ r.output

/-- Reads the written form. Blanks around either side do not count, and neither side may be
empty. -/
def parse (expression : String) : Except ConfigError Reference :=
  match Text.splitOnce '.' expression with
  | some (node, output) =>
    if (Text.trim node).isEmpty || (Text.trim output).isEmpty then
      .error (.invalidReference expression)
    else .ok ⟨Text.trim node, Text.trim output⟩
  | none => .error (.invalidReference expression)

end Reference

end Converge
