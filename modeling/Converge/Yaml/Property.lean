import Converge.Yaml.Token

/-!
# Properties and directives of YAML

Anchors, aliases and tags of nodes, and the directives at the beginning of a document.
-/

namespace Converge.Yaml

/-- Reads the name of an anchor or alias after its indicator. -/
def scanAnchorName (c : Cursor) : Except Fault (String × Cursor) :=
  let (name, c) := (c.advance 1).takeWhile isWordChar
  let ended := c.blankOrEnd 0 || c.seesSome 0 ("?:,]\x7d%@\x60".toList.contains ·)
  if name.isEmpty || !ended then .error .anchor else .ok (String.ofList name, c)

/-! ## Tags -/

/-- The number of bytes of the UTF-8 form that begins with the given byte. -/
def utf8Width? (byte : Nat) : Option Nat :=
  if byte < 0x80 then some 1
  else if byte / 0x20 = 0x6 then some 2
  else if byte / 0x10 = 0xE then some 3
  else if byte / 0x8 = 0x1E then some 4
  else none

/-- Reads a byte written as a percent sign and two hexadecimal digits. -/
def scanEscapedByte (c : Cursor) : Except Fault (Nat × Cursor) :=
  let digits := (c.rest.drop 1).take 2
  if c.sees 0 '%' && digits.length = 2 then
    match Text.readDigits? 16 digits with
    | some byte => .ok (byte, c.advance 3)
    | none => .error .tag
  else .error .tag

/-- Reads the continuation bytes of a character. -/
def scanContinuation : (count : Nat) → Cursor → (value : Nat) → Except Fault (Nat × Cursor)
  | 0, c, value => .ok (value, c)
  | count + 1, c, value => do
    let (byte, c) ← scanEscapedByte c
    if byte / 0x40 != 0x2 then throw .tag
    scanContinuation count c (value * 0x40 + byte % 0x40)

/-- Reads a character written as escaped bytes. -/
def scanEscapedChar (c : Cursor) : Except Fault (Char × Cursor) := do
  let (byte, c) ← scanEscapedByte c
  match utf8Width? byte with
  | none => throw .tag
  | some 1 => return (Char.ofNat byte, c)
  | some width =>
    let (value, c) ← scanContinuation (width - 1) c (byte % Nat.pow 2 (7 - width))
    return (if value.isValidChar then Char.ofNat value else '\ufffd', c)

/-- The characters of a tag; `verbatim` ones may also hold commas and brackets. -/
def isTagChar (verbatim : Bool) (c : Char) : Bool :=
  isWordChar c || ";/?:@&=+$.%!~*'()".toList.contains c || (verbatim && ",[]".toList.contains c)

/-- Reads the characters of a tag. -/
def scanTagChars (verbatim : Bool) : (fuel : Nat) → Cursor → String → Except Fault (String × Cursor)
  | 0, c, out => .ok (out, c)
  | fuel + 1, c, out =>
    match c.peek? 0 with
    | none => .ok (out, c)
    | some char =>
      if !isTagChar verbatim char then .ok (out, c)
      else if char = '%' then do
        let (char, c) ← scanEscapedChar c
        scanTagChars verbatim fuel c (out.push char)
      else scanTagChars verbatim fuel (c.advance 1) (out.push char)

/-- Reads a tag that has to have a character, `head` included. -/
def scanTagText (verbatim : Bool) (head : String) (c : Cursor) : Except Fault (String × Cursor) := do
  let (text, after) ← scanTagChars verbatim (c.rest.length + 1) c ""
  if head.isEmpty && after.index = c.index then throw .tag
  return (String.ofList (head.toList.drop 1) ++ text, after)

/-- Reads a handle: an exclamation mark, a word, and perhaps another mark. -/
def scanTagHandle (c : Cursor) : Except Fault (String × Cursor) :=
  if c.sees 0 '!' then
    let (word, c) := (c.advance 1).takeWhile isWordChar
    if c.sees 0 '!' then .ok ("!" ++ String.ofList word ++ "!", c.advance 1)
    else .ok ("!" ++ String.ofList word, c)
  else .error .tag

/-- Whether the text of a handle is closed by a mark of its own. -/
def isClosedHandle (handle : String) : Bool :=
  1 < handle.length && handle.toList.getLast? = some '!'

/-- Reads a tag as a handle and what follows it. -/
def scanTag (inFlow : Bool) (c : Cursor) : Except Fault (Token × Cursor) := do
  let (handle, suffix, c) ←
    if c.sees 1 '<' then do
      let (suffix, c) ← scanTagText true "" (c.advance 2)
      if !c.sees 0 '>' then throw .tag
      pure ("", suffix, c.advance 1)
    else do
      let (handle, c) ← scanTagHandle c
      if isClosedHandle handle then
        let (suffix, c) ← scanTagText false "" c
        pure (handle, suffix, c)
      else
        let (suffix, c) ← scanTagText false handle c
        pure (if suffix.isEmpty then ("", "!", c) else ("!", suffix, c))
  if !c.blankOrEnd 0 && !(inFlow && c.sees 0 ',') then throw .tag
  return (.tag handle suffix, c)

/-! ## Directives -/

/-- The most digits that a number in a directive may have. -/
def versionDigits : Nat := 9

def scanVersionNumber (c : Cursor) : Except Fault (Nat × Cursor) :=
  let (digits, c) := c.takeWhile Text.isDigit
  match Text.readDigits? 10 digits with
  | some value => if digits.length ≤ versionDigits then .ok (value, c) else .error .directive
  | none => .error .directive

def scanVersion (c : Cursor) : Except Fault (Token × Cursor) := do
  let (major, c) ← scanVersionNumber (c.skipWhile isBlank)
  if !c.sees 0 '.' then throw .directive
  let (minor, c) ← scanVersionNumber (c.advance 1)
  return (.version major minor, c)

def scanHandleDefinition (c : Cursor) : Except Fault (Token × Cursor) := do
  let (handle, c) ← scanTagHandle (c.skipWhile isBlank)
  if handle != "!" && !isClosedHandle handle then throw .directive
  if !c.atBlank then throw .directive
  let (tagPrefix, c) ← scanTagText true "" (c.skipWhile isBlank)
  if !c.blankOrEnd 0 then throw .directive
  return (.tagHandle handle tagPrefix, c)

/-- Reads a directive to the end of its line. -/
def scanDirective (c : Cursor) : Except Fault (Token × Cursor) := do
  let (name, c) := (c.advance 1).takeWhile isWordChar
  if !c.blankOrEnd 0 then throw .directive
  let (token, c) ←
    match String.ofList name with
    | "YAML" => scanVersion c
    | "TAG" => scanHandleDefinition c
    | _ => throw .directive
  return (token, ← c.endLine .directive)

end Converge.Yaml
