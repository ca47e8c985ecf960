import Converge.Json

/-!
# Writing documents

The two written forms of a value: compact, without any blank, and pretty, with every item and
field on a line of its own, indented by two spaces a level. Both write fields in their order.
-/

namespace Converge.Json

/-- A hexadecimal digit in lower case. -/
def hexDigit (n : Nat) : Char :=
  if n < 10 then Char.ofNat ('0'.toNat + n) else Char.ofNat ('a'.toNat + (n - 10))

/-- A character inside quotes. Quotes, backslashes and control characters are escaped. -/
def escapeChar (c : Char) : String :=
  match c with
  | '"' => "\\\""
  | '\\' => "\\\\"
  | '\n' => "\\n"
  | '\r' => "\\r"
  | '\t' => "\\t"
  | '\x08' => "\\b"
  | '\x0c' => "\\f"
  | c =>
    if c.toNat < 0x20 then
      "\\u00" ++ String.ofList [hexDigit (c.toNat / 16), hexDigit (c.toNat % 16)]
    else String.singleton c

/-- A text in quotes. -/
def quote (s : String) : String :=
  s.toList.foldl (fun out c => out ++ escapeChar c) "\"" ++ "\""

/-! ## Compact form -/

mutual

/-- Appends the compact form of a value to `out`. -/
def writeCompact (out : String) : Json → String
  | .null => out ++ "null"
  | .bool true => out ++ "true"
  | .bool false => out ++ "false"
  | .number value => out ++ value.render
  | .string value => out ++ quote value
  | .array items => writeCompactItems (out ++ "[") true items ++ "]"
  | .object fields => writeCompactFields (out ++ "\x7b") true fields ++ "\x7d"

def writeCompactItems (out : String) (first : Bool) : List Json → String
  | [] => out
  | item :: rest =>
    writeCompactItems (item.writeCompact (if first then out else out ++ ",")) false rest

def writeCompactFields (out : String) (first : Bool) : List (String × Json) → String
  | [] => out
  | (name, value) :: rest =>
    let out := (if first then out else out ++ ",") ++ quote name ++ ":"
    writeCompactFields (value.writeCompact out) false rest

end

/-- The compact form of a value. -/
def compact (value : Json) : String := value.writeCompact ""

/-! ## Pretty form -/

/-- A line break and the indentation of the given level. -/
def lineBreak (level : Nat) : String := "\n" ++ String.ofList (List.replicate (2 * level) ' ')

mutual

/-- Appends the pretty form of a value at an indentation level to `out`. -/
def writePretty (out : String) (level : Nat) : Json → String
  | .null => out ++ "null"
  | .bool true => out ++ "true"
  | .bool false => out ++ "false"
  | .number value => out ++ value.render
  | .string value => out ++ quote value
  | .array [] => out ++ "[]"
  | .array (item :: rest) =>
    writePrettyItems (out ++ "[") (level + 1) true (item :: rest) ++ lineBreak level ++ "]"
  | .object [] => out ++ "\x7b\x7d"
  | .object (field :: rest) =>
    writePrettyFields (out ++ "\x7b") (level + 1) true (field :: rest) ++ lineBreak level ++ "\x7d"

def writePrettyItems (out : String) (level : Nat) (first : Bool) : List Json → String
  | [] => out
  | item :: rest =>
    let out := (if first then out else out ++ ",") ++ lineBreak level
    writePrettyItems (item.writePretty out level) level false rest

def writePrettyFields (out : String) (level : Nat) (first : Bool) : List (String × Json) → String
  | [] => out
  | (name, value) :: rest =>
    let out := (if first then out else out ++ ",") ++ lineBreak level ++ quote name ++ ": "
    writePrettyFields (value.writePretty out level) level false rest

end

/-- The pretty form of a value. -/
def pretty (value : Json) : String := value.writePretty "" 0

end Converge.Json
