import Converge.Yaml.Property
import Converge.Yaml.Scalar

/-!
# From text to tokens

Tokens are read from left to right, with the columns at which block collections have begun. A
mapping shows only at the colon after its first key, so the place of every text that may turn out
to be a key is kept, and the tokens for it are put in there once the colon comes. Such a key stays
on one line and within 1024 characters.
-/

namespace Converge.Yaml

/-- A place where a key may have begun. -/
structure KeyPlace where
  /-- Number of tokens before it. -/
  tokens : Nat
  index : Nat
  line : Nat
  column : Nat
  /-- Whether nothing but a key can stand there. -/
  required : Bool

/-- A scan under way. -/
structure Scanning where
  cursor : Cursor
  /-- The tokens so far. -/
  tokens : Array Token := #[]
  /-- Columns of the block collections that are open, the innermost first. -/
  indents : List Nat := []
  /-- Number of flow collections that are open. -/
  flowLevel : Nat := 0
  /-- For every open flow collection, innermost first, and at last for the block around them, where
  a key may have begun. -/
  keys : List (Option KeyPlace) := [none]
  /-- Whether a key may begin here. -/
  keyAllowed : Bool := true

/-- The most characters between the beginning of a key and its colon. -/
def keyReach : Nat := 1024

namespace Scanning

def inFlow (s : Scanning) : Bool := 0 < s.flowLevel

def emit (s : Scanning) (token : Token) : Scanning := { s with tokens := s.tokens.push token }

/-- Emits a token of `width` characters. -/
def emitIndicator (s : Scanning) (token : Token) (width : Nat) : Scanning :=
  { s.emit token with cursor := s.cursor.advance width }

/-- Inserts a token after the first `place` ones. -/
def emitAt (s : Scanning) (place : Nat) (token : Token) : Scanning :=
  { s with tokens := (s.tokens.toList.take place ++ token :: s.tokens.toList.drop place).toArray }

/-- The column of the innermost block collection. -/
def indent? (s : Scanning) : Option Nat := s.indents.head?

/-- Closes the block collections that begin to the right of a column; `none` closes all. -/
def closeBlocks (s : Scanning) (column : Option Nat) : Scanning :=
  if s.inFlow then s
  else
    let closed := s.indents.takeWhile fun n => (column.map fun k => decide (k < n)).getD true
    { s with
      indents := s.indents.drop closed.length
      tokens := closed.foldl (fun tokens _ => tokens.push .blockEnd) s.tokens }

/-- Opens a block collection at a column, unless one is open there or to the right. The token goes
after the first `place` ones. -/
def openBlock (s : Scanning) (column place : Nat) (token : Token) : Scanning :=
  if s.inFlow || (s.indent?.map fun n => decide (column ≤ n)).getD false then s
  else { s.emitAt place token with indents := column :: s.indents }

/-- Gives up the place of the innermost key. -/
def dropKey (s : Scanning) : Except Fault Scanning :=
  match s.keys with
  | some place :: rest =>
    if place.required then .error .colonMissing else .ok { s with keys := none :: rest }
  | _ => .ok s

/-- Notes that a key may begin here. -/
def noteKey (s : Scanning) : Except Fault Scanning :=
  if s.keyAllowed then do
    let s ← s.dropKey
    let place : KeyPlace := {
      tokens := s.tokens.size
      index := s.cursor.index
      line := s.cursor.line
      column := s.cursor.column
      required := !s.inFlow && s.indent? == some s.cursor.column }
    return { s with keys := some place :: s.keys.drop 1 }
  else .ok s

/-- Gives up the places that are too far back for a key. -/
def dropFarKeys (s : Scanning) : Except Fault Scanning := do
  let keys ← s.keys.mapM fun place =>
    match place with
    | none => .ok none
    | some place =>
      if place.line < s.cursor.line || place.index + keyReach < s.cursor.index then
        if place.required then .error .colonMissing else .ok none
      else .ok (some place)
  return { s with keys }

/-- Steps over blanks, comments and line breaks between tokens. A tab is no blank where a key may
begin in a block. -/
def skipGap : (fuel : Nat) → Scanning → Scanning
  | 0, s => s
  | fuel + 1, s =>
    let c := if s.cursor.index = 0 && s.cursor.sees 0 '\ufeff' then s.cursor.advance 1 else s.cursor
    let tabs := s.inFlow || !s.keyAllowed
    let c := c.skipWhile fun char => char = ' ' || (tabs && char = '\t')
    let c := if c.sees 0 '#' then c.skipWhile (!isBreak ·) else c
    if c.atBreak then
      skipGap fuel { s with cursor := c.skipBreak, keyAllowed := s.keyAllowed || !s.inFlow }
    else { s with cursor := c }

/-! ## Tokens -/

def scanStreamEnd (s : Scanning) : Except Fault Scanning := do
  let s ← (s.closeBlocks none).dropKey
  return s.emit .streamEnd

def scanDirectiveLine (s : Scanning) : Except Fault Scanning := do
  let s ← (s.closeBlocks none).dropKey
  let (token, cursor) ← scanDirective s.cursor
  return { s.emit token with cursor, keyAllowed := false }

def scanDocumentMark (s : Scanning) (token : Token) : Except Fault Scanning := do
  let s ← (s.closeBlocks none).dropKey
  return { s.emitIndicator token 3 with keyAllowed := false }

def scanFlowStart (s : Scanning) (token : Token) : Except Fault Scanning := do
  let s ← s.noteKey
  return { s.emitIndicator token 1 with
    keys := none :: s.keys
    flowLevel := s.flowLevel + 1
    keyAllowed := true }

def scanFlowEnd (s : Scanning) (token : Token) : Except Fault Scanning := do
  let s ← s.dropKey
  return { s.emitIndicator token 1 with
    keys := if s.inFlow then s.keys.drop 1 else s.keys
    flowLevel := s.flowLevel - 1
    keyAllowed := false }

def scanFlowEntry (s : Scanning) : Except Fault Scanning := do
  let s ← s.dropKey
  return { s.emitIndicator .flowEntry 1 with keyAllowed := true }

def scanBlockEntry (s : Scanning) : Except Fault Scanning := do
  if !s.inFlow && !s.keyAllowed then throw .entryMisplaced
  let s ← (s.openBlock s.cursor.column s.tokens.size .blockSequenceStart).dropKey
  return { s.emitIndicator .blockEntry 1 with keyAllowed := true }

def scanKey (s : Scanning) : Except Fault Scanning := do
  if !s.inFlow && !s.keyAllowed then throw .keyMisplaced
  let s ← (s.openBlock s.cursor.column s.tokens.size .blockMappingStart).dropKey
  return { s.emitIndicator .key 1 with keyAllowed := !s.inFlow }

def scanValue (s : Scanning) : Except Fault Scanning :=
  match s.keys with
  | some place :: rest =>
    let s := (s.emitAt place.tokens .key).openBlock place.column place.tokens .blockMappingStart
    .ok { s.emitIndicator .value 1 with keys := none :: rest, keyAllowed := false }
  | _ => do
    if !s.inFlow && !s.keyAllowed then throw .valueMisplaced
    let s := s.openBlock s.cursor.column s.tokens.size .blockMappingStart
    return { s.emitIndicator .value 1 with keyAllowed := !s.inFlow }

def scanAnchor (s : Scanning) (token : String → Token) : Except Fault Scanning := do
  let s ← s.noteKey
  let (name, cursor) ← scanAnchorName s.cursor
  return { s.emit (token name) with cursor, keyAllowed := false }

def scanTagProperty (s : Scanning) : Except Fault Scanning := do
  let s ← s.noteKey
  let (token, cursor) ← scanTag s.inFlow s.cursor
  return { s.emit token with cursor, keyAllowed := false }

def scanBlockScalar (s : Scanning) (style : Style) : Except Fault Scanning := do
  let s ← s.dropKey
  let (text, cursor) ← scanBlock (style = .folded) s.indent? s.cursor
  return { s.emit (.scalar text style) with cursor, keyAllowed := true }

def scanQuotedScalar (s : Scanning) (style : Style) : Except Fault Scanning := do
  let s ← s.noteKey
  let (text, cursor) ← scanQuoted (style = .singleQuoted) s.cursor
  return { s.emit (.scalar text style) with cursor, keyAllowed := false }

def scanPlainScalar (s : Scanning) : Except Fault Scanning := do
  let s ← s.noteKey
  let (text, cursor, broken) ←
    scanPlain s.inFlow ((s.indent?.map (· + 1)).getD 0) s.cursor
  return { s.emit (.scalar text .plain) with cursor, keyAllowed := broken }

/-- Indicators that cannot begin a plain scalar. -/
def isIndicator (c : Char) : Bool := "-?:,[]\x7b\x7d#&*!|>'\"%@\x60".toList.contains c

/-- Whether a plain scalar may begin here. -/
def startsPlain (s : Scanning) : Bool :=
  let c := s.cursor
  (!c.blankOrEnd 0 && !c.seesSome 0 isIndicator) ||
  (c.sees 0 '-' && !c.seesSome 1 isBlank) ||
  (!s.inFlow && (c.sees 0 '?' || c.sees 0 ':') && !c.blankOrEnd 1)

/-- Reads the token at the cursor, where one has to begin. -/
def scanToken (s : Scanning) : Except Fault Scanning :=
  let c := s.cursor
  match c.peek? 0 with
  | none => s.scanStreamEnd
  | some char =>
    if c.column = 0 && char = '%' then s.scanDirectiveLine
    else if c.atDocumentMark '-' then s.scanDocumentMark .documentStart
    else if c.atDocumentMark '.' then s.scanDocumentMark .documentEnd
    else if char = '[' then s.scanFlowStart .flowSequenceStart
    else if char = '\x7b' then s.scanFlowStart .flowMappingStart
    else if char = ']' then s.scanFlowEnd .flowSequenceEnd
    else if char = '\x7d' then s.scanFlowEnd .flowMappingEnd
    else if char = ',' then s.scanFlowEntry
    else if char = '-' && c.blankOrEnd 1 then s.scanBlockEntry
    else if char = '?' && (s.inFlow || c.blankOrEnd 1) then s.scanKey
    else if char = ':' && (s.inFlow || c.blankOrEnd 1) then s.scanValue
    else if char = '*' then s.scanAnchor .alias
    else if char = '&' then s.scanAnchor .anchor
    else if char = '!' then s.scanTagProperty
    else if char = '|' && !s.inFlow then s.scanBlockScalar .literal
    else if char = '>' && !s.inFlow then s.scanBlockScalar .folded
    else if char = '\x27' then s.scanQuotedScalar .singleQuoted
    else if char = '"' then s.scanQuotedScalar .doubleQuoted
    else if s.startsPlain then s.scanPlainScalar
    else .error .unexpectedCharacter

/-- Reads the next token and all that indentation brings before it. -/
def next (s : Scanning) : Except Fault Scanning := do
  let s ← (skipGap (s.cursor.rest.length + 1) s).dropFarKeys
  (s.closeBlocks (some s.cursor.column)).scanToken

/-- Reads tokens up to the end of the text. Every token but the last takes a character. -/
def run : (fuel : Nat) → Scanning → Except Fault Scanning
  | 0, s => .ok s
  | fuel + 1, s => do
    let s ← s.next
    if s.tokens.back? = some .streamEnd then return s
    run fuel s

end Scanning

/-- The tokens of a text. -/
def tokens (text : String) : Except Fault (List Token) := do
  if !text.all isPrintable then throw .controlCharacter
  let cursor := Cursor.start text
  let s ← Scanning.run (cursor.rest.length + 1) { cursor }
  return s.tokens.toList

end Converge.Yaml
