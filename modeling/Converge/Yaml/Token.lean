import Converge.Yaml.Cursor

/-!
# Tokens of YAML

What a YAML text is made of before it is put together: the indicators, the scalars with their
style, and the beginnings and ends of block collections, which only indentation shows.
-/

namespace Converge.Yaml

/-- How a scalar is written. -/
inductive Style where
  | plain
  | singleQuoted
  | doubleQuoted
  | literal
  | folded
deriving DecidableEq, Repr

/-- A part of a YAML text. -/
inductive Token where
  | streamEnd
  | version (major minor : Nat)
  | tagHandle (handle tagPrefix : String)
  | documentStart
  | documentEnd
  | blockSequenceStart
  | blockMappingStart
  | blockEnd
  | flowSequenceStart
  | flowSequenceEnd
  | flowMappingStart
  | flowMappingEnd
  | blockEntry
  | flowEntry
  | key
  | value
  | alias (name : String)
  | anchor (name : String)
  | tag (handle suffix : String)
  | scalar (text : String) (style : Style)
deriving DecidableEq, Repr

end Converge.Yaml
